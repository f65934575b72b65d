import Stad.DataSetPaths
import Stad.ManifestOrder

/-!
`LoadDataAsync` on a data set in a directory, from its manifest and its files to the
object. What an item is decoded to may differ from round to round, even for equal
contents, since the array that a call of the formatter rents may hold anything.
-/

namespace Stad

open PathText ReflectionUtility StadSerializer

/-- What the calls of `StadJsonFormatter.Deserialize` come to in the rounds of one load. -/
structure FormatterCalls (τ β ν : Type) where
  isValueType : τ → Bool
  isInstance : τ → ν → Bool
  deserialize : Nat → τ → β → Except Thrown ν
  typed : ∀ round type content value, deserialize round type content = .ok value →
    isInstance type value = true

section Model

variable {platform : Platform} {τ β ν : Type}

namespace FileSystemDataSet

/-- `MakeGenericMethod` wants a type. A delegate that returns `object` cannot be made of a
method that returns a value type, and one made without a formatter has nothing to call. -/
def callGenericDeserialize (calls : FormatterCalls τ β ν) (round : Nat) (type : Option τ)
    (formatter : Bool) (content : β) : Except Thrown ν :=
  match type with
  | none => throw .argument
  | some type =>
    if calls.isValueType type then throw .argument
    else if formatter then calls.deserialize round type content
    else throw .nullReference

def inRound (tree : DirectoryTree platform β) (calls : FormatterCalls τ β ν)
    (dataSet : FileSystemDataSet) (round : Nat) (items : Option (List DataSetItem)) :
    DataSet τ ν where
  name := String.ofList dataSet.name
  getItems := items
  loadAsync := loadAsync tree (callGenericDeserialize calls round) dataSet

end FileSystemDataSet

def DataSetFactory.localFile (platform : Platform) (rootPath : List Char) : FileSystemDataSet :=
  .create platform rootPath

variable (tree : DirectoryTree platform β)
  (deserialize : β → Except Thrown (Option (List DataSetItem))) (calls : FormatterCalls τ β ν)
  (type : TargetType τ ν)

/-- `LoadDataAsync` on `DataSetFactory.LocalFile`. Awaiting the null task of a missing manifest
throws. -/
def StadSerializer.loadLocalFile (rootPath : List Char) : Except Thrown (Heap ν × Variable ν) := do
  let dataSet := DataSetFactory.localFile platform rootPath
  match ← dataSet.getItems tree deserialize with
  | none => throw .nullReference
  | some none => return default type
  | some (some items) =>
    items.zipIdx.foldlM (fun state round => loadItem type calls.isInstance
      (dataSet.inRound tree calls round.2 (some items)) state round.1) (new type)

end Model

namespace StadSerializer

variable {platform : Platform} {τ β ν : Type} {tree : DirectoryTree platform β}
  {deserialize : β → Except Thrown (Option (List DataSetItem))} {calls : FormatterCalls τ β ν}
  {type : TargetType τ ν} {dataSet : FileSystemDataSet} {items : Option (List DataSetItem)}

/-- The item of the round names a member of a reference type, its file is there, and the call
of the formatter decodes it to the value. -/
structure Loads (tree : DirectoryTree platform β) (calls : FormatterCalls τ β ν)
    (type : TargetType τ ν) (dataSet : FileSystemDataSet) (round : DataSetItem × Nat)
    (slot : Slot) (value : ν) : Prop where
  names : Names type round.1.name slot
  unambiguous : Unambiguous type round.1.name
  isJson : round.1.encodingType = .json
  decoded : ∃ memberType content, typeOf type slot = some memberType ∧
    calls.isValueType memberType = false ∧
    tree.readFile (place platform.isSeparator (dataSet.contentPath round.1)) = some content ∧
    calls.deserialize round.2 memberType content = .ok value

/-- Each member holds what the last item that names it was decoded to, and every other one
what the constructor gave it. -/
structure HoldsLast (type : TargetType τ ν) (loads : DataSetItem × Nat → Slot → ν → Prop)
    (rounds : List (DataSetItem × Nat)) (contents : Contents ν) : Prop where
  named : ∀ earlier round later slot value, rounds = earlier ++ round :: later →
    loads round slot value → (∀ next ∈ later, ¬Names type next.1.name slot) →
    contents slot = value
  unnamed : ∀ slot, (∀ round ∈ rounds, ¬Names type round.1.name slot) →
    contents slot = type.constructed slot

theorem createFormatter_iff {item : DataSetItem} :
    FileSystemDataSet.createFormatter item = true ↔ item.encodingType = .json := by
  cases encoded : item.encodingType <;> simp [FileSystemDataSet.createFormatter, encoded]

theorem callGenericDeserialize_ok {round : Nat} {memberType : Option τ} {formatter : Bool}
    {content : β} {value : ν} :
    FileSystemDataSet.callGenericDeserialize calls round memberType formatter content = .ok value ↔
      ∃ known, memberType = some known ∧ calls.isValueType known = false ∧ formatter = true ∧
        calls.deserialize round known content = .ok value := by
  cases memberType with
  | none => simp [FileSystemDataSet.callGenericDeserialize, throw, throwThe, MonadExceptOf.throw]
  | some known =>
      cases boxed : calls.isValueType known <;> cases formatter <;>
        simp [FileSystemDataSet.callGenericDeserialize, boxed, throw, throwThe, MonadExceptOf.throw]

theorem readContent_ok {item : DataSetItem} {content : β} :
    FileSystemDataSet.readContent tree dataSet item = .ok content ↔
      tree.readFile (place platform.isSeparator (dataSet.contentPath item)) = some content := by
  unfold FileSystemDataSet.readContent
  split
  · rename_i missing
    simp [missing]
  · rename_i found there
    simp [there]

theorem loadAsync_ok {round : Nat} {memberType : Option τ} {item : DataSetItem} {value : ν} :
    (dataSet.inRound tree calls round items).loadAsync memberType item = .ok value ↔
      ∃ known content, memberType = some known ∧ calls.isValueType known = false ∧
        item.encodingType = .json ∧
        tree.readFile (place platform.isSeparator (dataSet.contentPath item)) = some content ∧
        calls.deserialize round known content = .ok value := by
  simp only [FileSystemDataSet.inRound, FileSystemDataSet.loadAsync, Bounded.except_bind_eq_ok,
    readContent_ok, callGenericDeserialize_ok, createFormatter_iff]
  constructor
  · rintro ⟨content, there, known, isKnown, reference, isJson, decoded⟩
    exact ⟨known, content, isKnown, reference, isJson, there, decoded⟩
  · rintro ⟨known, content, isKnown, reference, isJson, there, decoded⟩
    exact ⟨content, there, known, isKnown, reference, isJson, decoded⟩

theorem storedIn_named {isInstance : τ → ν → Bool} {item : DataSetItem} {slot : Slot}
    {memberType : τ} {value : ν} (unambiguous : Unambiguous type item.name)
    (names : Names type item.name slot) (isOfType : typeOf type slot = some memberType)
    (fits : isInstance memberType value = true) :
    findMember type item = .ok (some (slot, memberType)) ∧
      storedIn type isInstance item value = .ok (some slot) := by
  obtain ⟨memberType', isOfType', found, sets⟩ := findMember_named unambiguous names
  obtain rfl : memberType = memberType' := Option.some.inj (isOfType.symm.trans isOfType')
  refine ⟨found, ?_⟩
  have stored := (setValue_held type.constructed item value).symm.trans
    (sets isInstance [type.constructed] 0 value fits)
  cases kept : storedIn type isInstance item value with
  | error thrown => simp [kept] at stored
  | ok chosen =>
      cases chosen with
      | none => simp [kept] at stored
      | some slot' => rw [(storedIn_names kept).slot_eq unambiguous names]

theorem findMember_none {isInstance : τ → ν → Bool} {item : DataSetItem} {value : ν}
    (unstored : storedIn type isInstance item value = .ok none) :
    findMember type item = .ok none := by
  cases found : type.getField item.name with
  | some field =>
      simp only [storedIn, found] at unstored
      split at unstored <;> cases unstored
  | none =>
      simp only [storedIn, found] at unstored
      obtain ⟨property, located, unstored⟩ := Bounded.except_bind_eq_ok.mp unstored
      cases property with
      | none =>
          simp only [findMember, found, located]
          rfl
      | some property =>
          simp only at unstored
          split at unstored <;> cases unstored

theorem written_iff {round : DataSetItem × Nat} {write : Option (Slot × ν)} :
    written type calls.isInstance (dataSet.inRound tree calls round.2 items) round.1 = .ok write ↔
      ∃ slot value, write = some (slot, value) ∧
        Loads tree calls type dataSet round slot value := by
  constructor
  · intro writes
    obtain ⟨memberInfo, found, rest⟩ := Bounded.except_bind_eq_ok.mp writes
    obtain ⟨value, loaded, rest⟩ := Bounded.except_bind_eq_ok.mp rest
    obtain ⟨stored, kept, rest⟩ := Bounded.except_bind_eq_ok.mp rest
    obtain ⟨known, content, isKnown, reference, isJson, there, decoded⟩ := loadAsync_ok.mp loaded
    have unambiguous : Unambiguous type round.1.name := by
      by_contra ambiguous
      rw [findMember_ambiguous ambiguous] at found
      cases found
    cases stored with
    | none =>
        rw [findMember_none kept] at found
        cases found
        cases isKnown
    | some slot =>
        cases rest
        have names := storedIn_names kept
        obtain ⟨memberType, isOfType, found', _⟩ := findMember_named unambiguous names
        rw [found] at found'
        cases found'
        cases isKnown
        exact ⟨slot, value, rfl, names, unambiguous, isJson, memberType, content, isOfType,
          reference, there, decoded⟩
  · rintro ⟨slot, value, rfl, names, unambiguous, isJson, memberType, content, isOfType, reference,
      there, decoded⟩
    obtain ⟨found, stored⟩ := storedIn_named unambiguous names isOfType
      (calls.typed round.2 memberType content value decoded)
    have loaded : (dataSet.inRound tree calls round.2 items).loadAsync (some memberType) round.1 =
        .ok value := loadAsync_ok.mpr ⟨memberType, content, rfl, reference, isJson, there, decoded⟩
    unfold written
    simp only [found, Option.map_some, loaded, stored, bind, Except.bind]
    rfl

/-! One round. -/

theorem loadItem_class {round : DataSetItem × Nat} {contents : Contents ν}
    {next : Heap ν × Variable ν} :
    loadItem type calls.isInstance (dataSet.inRound tree calls round.2 items) (held contents)
        round.1 = .ok next ↔
      ∃ slot value, Loads tree calls type dataSet round slot value ∧
        next = held (Function.update contents slot value) := by
  rw [loadItem_held]
  constructor
  · intro loaded
    obtain ⟨contents', wrote, rfl⟩ := Bounded.except_map_eq_ok.mp loaded
    obtain ⟨write, writes, rfl⟩ := Bounded.except_map_eq_ok.mp wrote
    obtain ⟨slot, value, rfl, loads⟩ := written_iff.mp writes
    exact ⟨slot, value, loads, rfl⟩
  · rintro ⟨slot, value, loads, rfl⟩
    refine Bounded.except_map_eq_ok.mpr ⟨put contents (some (slot, value)), ?_, rfl⟩
    exact Bounded.except_map_eq_ok.mpr
      ⟨some (slot, value), written_iff.mpr ⟨slot, value, rfl, loads⟩, rfl⟩

theorem setValue_eq {isInstance : τ → ν → Bool} (heap : Heap ν) (address : Nat)
    (item : DataSetItem) (value : ν) :
    setValue type isInstance heap address item value =
      (fun slot => (heap.modify address fun contents =>
        put contents (slot.map fun slot => (slot, value)), slot.isSome)) <$>
        storedIn type isInstance item value := by
  have unchanged : (heap.modify address fun contents => contents) = heap := List.modify_id _ _
  unfold setValue storedIn assign
  cases type.getField item.name with
  | some field =>
      by_cases fits : isInstance field.1.fieldType value = true
      · simp only [fits, if_true]
        rfl
      · simp only [fits]
        rfl
  | none =>
      cases type.getProperty item.name with
      | error thrown => rfl
      | ok located =>
          cases located with
          | none => simp [bind, Except.bind, pure, Except.pure, put, unchanged]
          | some property =>
              by_cases canWrite : property.1.canWrite = true
              · by_cases fits : isInstance property.1.propertyType value = true
                · simp [bind, Except.bind, canWrite, fits]
                  rfl
                · simp [bind, Except.bind, canWrite, fits]
              · simp [bind, Except.bind, canWrite]
                rfl

theorem loadItem_inline_eq {isInstance : τ → ν → Bool} (supply : DataSet τ ν) (heap : Heap ν)
    (contents : Contents ν) (item : DataSetItem) :
    loadItem type isInstance supply (heap, .inline contents) item =
      (fun write => ((heap ++ [contents] ++ [contents]).modify (heap.length + 1) fun boxed =>
        put boxed write, .inline contents)) <$> written type isInstance supply item := by
  have length : (heap ++ [contents]).length = heap.length + 1 := by simp
  unfold loadItem written
  simp only [box]
  cases findMember type item with
  | error thrown => rfl
  | ok memberInfo =>
      simp only [bind, Except.bind, length]
      cases supply.loadAsync (memberInfo.map Prod.snd) item with
      | error thrown => rfl
      | ok value =>
          simp only [setValue_eq]
          cases storedIn type isInstance item value with
          | error thrown => rfl
          | ok slot => rfl

theorem loadItem_struct {round : DataSetItem × Nat} {heap : Heap ν} {contents : Contents ν}
    {next : Heap ν × Variable ν}
    (loaded : loadItem type calls.isInstance (dataSet.inRound tree calls round.2 items)
      (heap, .inline contents) round.1 = .ok next) :
    (∃ slot value, Loads tree calls type dataSet round slot value) ∧ next.2 = .inline contents := by
  rw [loadItem_inline_eq] at loaded
  obtain ⟨write, writes, rfl⟩ := Bounded.except_map_eq_ok.mp loaded
  obtain ⟨slot, value, -, loads⟩ := written_iff.mp writes
  exact ⟨⟨slot, value, loads⟩, rfl⟩

theorem Loads.unique {round : DataSetItem × Nat} {slot slot' : Slot} {value value' : ν}
    (loads : Loads tree calls type dataSet round slot value)
    (loads' : Loads tree calls type dataSet round slot' value') :
    slot = slot' ∧ value = value' := by
  have same := loads.names.slot_eq loads.unambiguous loads'.names
  obtain ⟨memberType, content, isOfType, -, there, decoded⟩ := loads.decoded
  obtain ⟨memberType', content', isOfType', -, there', decoded'⟩ := loads'.decoded
  rw [same, isOfType'] at isOfType
  rw [there'] at there
  cases isOfType
  cases there
  exact ⟨same, Except.ok.inj (decoded.symm.trans decoded')⟩

/-! All rounds. -/

theorem HoldsLast.nil {loads : DataSetItem × Nat → Slot → ν → Prop} :
    HoldsLast type loads [] type.constructed where
  named := by
    intro earlier round later slot value split
    simp at split
  unnamed := fun _ _ => rfl

theorem HoldsLast.snoc {rounds : List (DataSetItem × Nat)} {last : DataSetItem × Nat}
    {contents : Contents ν} {slot : Slot} {value : ν}
    (holds : HoldsLast type (Loads tree calls type dataSet) rounds contents)
    (loads : Loads tree calls type dataSet last slot value) :
    HoldsLast type (Loads tree calls type dataSet) (rounds ++ [last])
      (Function.update contents slot value) where
  named := by
    intro earlier round later slot' value' split loads' free
    rcases List.eq_nil_or_concat later with none | ⟨rest, final, more⟩
    · rw [none] at split
      obtain ⟨-, sameLast⟩ := List.append_inj' split rfl
      obtain rfl := List.singleton_inj.mp sameLast
      obtain ⟨rfl, rfl⟩ := loads.unique loads'
      exact Function.update_self _ _ _
    · rw [more, List.concat_eq_append] at free
      obtain ⟨between, atLast⟩ := List.forall_mem_append.mp free
      rw [more, List.concat_eq_append, ← List.cons_append, ← List.append_assoc] at split
      obtain ⟨whole, sameLast⟩ := List.append_inj' split rfl
      obtain rfl := List.singleton_inj.mp sameLast
      have apart : slot' ≠ slot := by
        rintro rfl
        exact atLast last (List.mem_singleton_self last) loads.names
      rw [Function.update_of_ne apart]
      exact holds.named earlier round rest slot' value' whole loads' between
  unnamed := by
    intro slot' free
    obtain ⟨before, atLast⟩ := List.forall_mem_append.mp free
    have apart : slot' ≠ slot := by
      rintro rfl
      exact atLast last (List.mem_singleton_self last) loads.names
    rw [Function.update_of_ne apart]
    exact holds.unnamed slot' before

theorem foldlM_class {rounds : List (DataSetItem × Nat)} {last : Heap ν × Variable ν}
    (looped : rounds.foldlM (fun state round => loadItem type calls.isInstance
      (dataSet.inRound tree calls round.2 items) state round.1) (held type.constructed) =
        .ok last) :
    ∃ contents, last = held contents ∧
      HoldsLast type (Loads tree calls type dataSet) rounds contents := by
  induction rounds using List.reverseRecOn generalizing last with
  | nil =>
      cases looped
      exact ⟨type.constructed, rfl, HoldsLast.nil⟩
  | append_singleton earlier round ih =>
      rw [List.foldlM_append] at looped
      obtain ⟨middle, before, atLast⟩ := Bounded.except_bind_eq_ok.mp looped
      obtain ⟨contents, rfl, holds⟩ := ih before
      rw [List.foldlM_cons] at atLast
      obtain ⟨next, loaded, ended⟩ := Bounded.except_bind_eq_ok.mp atLast
      cases ended
      obtain ⟨slot, value, loads, rfl⟩ := loadItem_class.mp loaded
      exact ⟨_, rfl, holds.snoc loads⟩

theorem foldlM_struct {rounds : List (DataSetItem × Nat)} {heap : Heap ν} {contents : Contents ν}
    {last : Heap ν × Variable ν}
    (looped : rounds.foldlM (fun state round => loadItem type calls.isInstance
      (dataSet.inRound tree calls round.2 items) state round.1) (heap, .inline contents) =
        .ok last) : last.2 = .inline contents := by
  induction rounds generalizing heap with
  | nil =>
      cases looped
      rfl
  | cons round rest ih =>
      rw [List.foldlM_cons] at looped
      obtain ⟨⟨heap', result⟩, loaded, looped⟩ := Bounded.except_bind_eq_ok.mp looped
      obtain ⟨-, rfl⟩ := loadItem_struct loaded
      exact ih looped

theorem foldlM_returns {rounds : List (DataSetItem × Nat)} :
    (∃ last, rounds.foldlM (fun state round => loadItem type calls.isInstance
        (dataSet.inRound tree calls round.2 items) state round.1) (new type) = .ok last) ↔
      ∀ round ∈ rounds, ∃ slot value, Loads tree calls type dataSet round slot value := by
  cases kind : type.isValueType with
  | false =>
      have start : new type = held type.constructed := by simp [new, held, kind]
      rw [start]
      refine Bounded.foldlM_returns_iff (fun state => ∃ contents, state = held contents) ?_ ?_
        ⟨type.constructed, rfl⟩
      · rintro state round ⟨contents, rfl⟩
        constructor
        · rintro ⟨next, loaded⟩
          obtain ⟨slot, value, loads, -⟩ := loadItem_class.mp loaded
          exact ⟨slot, value, loads⟩
        · rintro ⟨slot, value, loads⟩
          exact ⟨_, loadItem_class.mpr ⟨slot, value, loads, rfl⟩⟩
      · rintro state round next ⟨contents, rfl⟩ loaded
        obtain ⟨slot, value, -, same⟩ := loadItem_class.mp loaded
        exact ⟨_, same⟩
  | true =>
      have start : new type = ([], .inline type.constructed) := by simp [new, kind]
      rw [start]
      refine Bounded.foldlM_returns_iff (fun state => state.2 = .inline type.constructed) ?_ ?_ rfl
      · rintro ⟨heap, result⟩ round rfl
        constructor
        · rintro ⟨next, loaded⟩
          exact (loadItem_struct loaded).1
        · rintro ⟨slot, value, loads⟩
          rw [loadItem_inline_eq]
          exact ⟨_, Bounded.except_map_eq_ok.mpr
            ⟨some (slot, value), written_iff.mpr ⟨slot, value, rfl, loads⟩, rfl⟩⟩
      · rintro ⟨heap, result⟩ round next rfl loaded
        exact (loadItem_struct loaded).2

def Lists (tree : DirectoryTree platform β)
    (deserialize : β → Except Thrown (Option (List DataSetItem))) (dataSet : FileSystemDataSet)
    (listed : Option (List DataSetItem)) : Prop :=
  ∃ file, tree.readFile (place platform.isSeparator dataSet.manifestPath) = some file ∧
    deserialize file = .ok listed

theorem getItems_iff {listed : Option (List DataSetItem)} :
    dataSet.getItems tree deserialize = .ok (some listed) ↔
      Lists tree deserialize dataSet listed := by
  unfold FileSystemDataSet.getItems DirectoryTree.itemsAt Lists
  split
  · rename_i missing
    simp [missing]
  · rename_i file there
    cases parsed : deserialize file with
    | error thrown => simp [there, parsed, bind, Except.bind]
    | ok listed' => simp [there, parsed, bind, Except.bind, pure, Except.pure]

theorem loadLocalFile_ok {rootPath : List Char} {result : Heap ν × Variable ν} :
    loadLocalFile tree deserialize calls type rootPath = .ok result ↔
      ∃ listed, Lists tree deserialize (DataSetFactory.localFile platform rootPath) listed ∧
        (listed = none → result = default type) ∧
        ∀ items, listed = some items → items.zipIdx.foldlM (fun state round =>
          loadItem type calls.isInstance ((DataSetFactory.localFile platform rootPath).inRound tree
            calls round.2 (some items)) state round.1) (new type) = .ok result := by
  unfold loadLocalFile
  rw [Bounded.except_bind_eq_ok]
  constructor
  · rintro ⟨items, got, rest⟩
    rcases items with _ | _ | items
    · cases rest
    · cases rest
      exact ⟨none, getItems_iff.mp got, fun _ => rfl, by simp⟩
    · exact ⟨some items, getItems_iff.mp got, by simp, by rintro _ ⟨⟩; exact rest⟩
  · rintro ⟨listed, lists, whenNull, whenItems⟩
    refine ⟨some listed, getItems_iff.mpr lists, ?_⟩
    cases listed with
    | none => exact congrArg Except.ok (whenNull rfl).symm
    | some items => exact whenItems items rfl

/-- What can be loaded from a directory, and what the loaded object holds. -/
theorem loadLocalFile_exact (rootPath : List Char) :
    ((∃ result, loadLocalFile tree deserialize calls type rootPath = .ok result) ↔
      ∃ listed, Lists tree deserialize (DataSetFactory.localFile platform rootPath) listed ∧
        ∀ items, listed = some items → ∀ round ∈ items.zipIdx, ∃ slot value,
          Loads tree calls type (DataSetFactory.localFile platform rootPath) round slot value) ∧
    ∀ result, loadLocalFile tree deserialize calls type rootPath = .ok result →
      ∃ listed, Lists tree deserialize (DataSetFactory.localFile platform rootPath) listed ∧
        (listed = none → result = default type) ∧
        ∀ items, listed = some items → ∃ contents,
          contentsOf result.1 result.2 = some contents ∧
          (type.isValueType = false → HoldsLast type
            (Loads tree calls type (DataSetFactory.localFile platform rootPath)) items.zipIdx
            contents) ∧
          (type.isValueType = true → contents = type.constructed) := by
  constructor
  · constructor
    · rintro ⟨result, returned⟩
      obtain ⟨listed, lists, -, whenItems⟩ := loadLocalFile_ok.mp returned
      refine ⟨listed, lists, fun items some => ?_⟩
      exact foldlM_returns.mp ⟨result, whenItems items some⟩
    · rintro ⟨listed, lists, loadable⟩
      cases listed with
      | none => exact ⟨default type, loadLocalFile_ok.mpr ⟨none, lists, fun _ => rfl, by simp⟩⟩
      | some items =>
          obtain ⟨last, looped⟩ := foldlM_returns.mpr (loadable items rfl)
          refine ⟨last, loadLocalFile_ok.mpr ⟨some items, lists, by simp, ?_⟩⟩
          rintro _ ⟨⟩
          exact looped
  · intro result returned
    obtain ⟨listed, lists, whenNull, whenItems⟩ := loadLocalFile_ok.mp returned
    refine ⟨listed, lists, whenNull, fun items some => ?_⟩
    have looped := whenItems items some
    cases kind : type.isValueType with
    | false =>
        have start : new type = held type.constructed := by simp [new, held, kind]
        rw [start] at looped
        obtain ⟨contents, rfl, holds⟩ := foldlM_class looped
        exact ⟨contents, rfl, fun _ => holds, by simp⟩
    | true =>
        have start : new type = ([], .inline type.constructed) := by simp [new, kind]
        rw [start] at looped
        have unfilled := foldlM_struct looped
        exact ⟨type.constructed, by rw [unfilled]; rfl, by simp, fun _ => rfl⟩

/-- Where the pool makes no difference, this is the load of the data set as such. -/
theorem loadLocalFile_eq {rootPath : List Char} {listed : Option (List DataSetItem)}
    (steady : ∀ round, calls.deserialize round = calls.deserialize 0)
    (lists : Lists tree deserialize (DataSetFactory.localFile platform rootPath) listed) :
    loadLocalFile tree deserialize calls type rootPath = loadDataAsync type calls.isInstance
      (some ((DataSetFactory.localFile platform rootPath).inRound tree calls 0 listed)) := by
  have same (round : Nat) : (DataSetFactory.localFile platform rootPath).inRound tree calls round =
      (DataSetFactory.localFile platform rootPath).inRound tree calls 0 := by
    have call : FileSystemDataSet.callGenericDeserialize calls round =
        FileSystemDataSet.callGenericDeserialize calls 0 := by
      funext memberType formatter content
      simp only [FileSystemDataSet.callGenericDeserialize, steady round]
    funext items
    simp only [FileSystemDataSet.inRound, call]
  unfold loadLocalFile loadDataAsync
  simp only [getItems_iff.mpr lists, bind, Except.bind]
  cases listed with
  | none => rfl
  | some items =>
      simp only [same]
      rw [← List.foldlM_map, List.zipIdx_map_fst]
      rfl

/-! `Common/` with a manifest that lists `Value` twice, whose file is decoded differently each
time. -/

def valueTree : DirectoryTree .unix Nat where
  readFile file :=
    if file = ⟨false, ["Common".toList, "Manifest.json".toList]⟩ then some 0
    else if file = ⟨false, ["Common".toList, "Value.Json".toList]⟩ then some 7
    else none
  subdirectories _ := none
  named := by simp

def valueCalls : FormatterCalls Unit Nat Nat where
  isValueType _ := false
  isInstance _ _ := true
  deserialize round _ content := .ok (content + round)
  typed _ _ _ _ _ := rfl

def valueItem : DataSetItem := ⟨"Value", 1, .json⟩

def valueHolder : TargetType Unit Nat where
  isValueType := false
  fields := [⟨"Value", ()⟩]
  properties := []
  constructed _ := 0
  zeroed _ := 0

example : (loadLocalFile valueTree (fun _ => .ok (some [valueItem, valueItem])) valueCalls
    valueHolder "Common/".toList).toOption.bind (fun result =>
      (contentsOf result.1 result.2).map (· (.field 0))) = some 8 := by decide

end StadSerializer

end Stad
