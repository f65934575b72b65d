import Mathlib.Data.List.Nodup
import Stad.DataSetPaths

/-!
One source over the history of its directory. Every call of `Initialize` adds the
data sets of its time behind those of the calls before it, and nothing is ever
taken away, so the last call lists the directory as it is only when the calls
before it found nothing.
-/

namespace Stad.LocalFileDataSource

open PathText

variable {platform : Platform} {β : Type}

def getDataSets (source : LocalFileDataSource) : List FileSystemDataSet := source.dataSets

def runCalls (calls : List (DirectoryTree platform β)) (source : LocalFileDataSource) :
    Except Thrown (LocalFileDataSource × Bool) :=
  calls.foldlM (fun state tree => runInitialize tree state.1) (source, false)

def Enumerates (tree : DirectoryTree platform β) (root : List Char) : Prop :=
  ∃ names, tree.subdirectories (place platform.isSeparator root) = some names ∧ names.Nodup

/-- The subdirectory of the name is there and holds a manifest. -/
def Present (tree : DirectoryTree platform β) (root name : List Char) : Prop :=
  ∃ names, tree.subdirectories (place platform.isSeparator root) = some names ∧ name ∈ names ∧
    (tree.readFile (((place platform.isSeparator root).inside name).inside
      Constants.dataSetManifestPath)).isSome

def isAt (platform : Platform) (root name : List Char) (dataSet : FileSystemDataSet) : Bool :=
  place platform.isSeparator dataSet.rootPath = (place platform.isSeparator root).inside name

structure ReflectsDirectory (tree : DirectoryTree platform β) (source : LocalFileDataSource)
    (returned : Bool) : Prop where
  once : ∀ name, Present tree source.rootPath name →
    source.getDataSets.countP (isAt platform source.rootPath name) = 1
  only : ∀ dataSet ∈ source.getDataSets, ∃ name, Present tree source.rootPath name ∧
    isAt platform source.rootPath name dataSet = true
  returned_iff : returned = true ↔ ∃ name, Present tree source.rootPath name
  available : source.isAvailable = returned

def dataSetsIn (tree : DirectoryTree platform β) (root : List Char) : List FileSystemDataSet :=
  ((((tree.subdirectories (place platform.isSeparator root)).getD []).map
    (combine platform.isSeparator platform.separator root)).filter (hasManifest tree)).map
      (FileSystemDataSet.create platform)

def Consistent (source : LocalFileDataSource) : Prop :=
  source.isAvailable = !source.dataSets.isEmpty

theorem present_iff {tree : DirectoryTree platform β} {root : List Char} {names : List (List Char)}
    (listed : tree.subdirectories (place platform.isSeparator root) = some names)
    (name : List Char) : Present tree root name ↔ name ∈ names ∧
      hasManifest tree (combine platform.isSeparator platform.separator root name) = true := by
  constructor
  · rintro ⟨names', listed', member, holds⟩
    rw [listed, Option.some.injEq] at listed'
    subst listed'
    exact ⟨member, by rw [hasManifest_iff tree (tree.named _ _ listed name member), holds]⟩
  · rintro ⟨member, holds⟩
    rw [hasManifest_iff tree (tree.named _ _ listed name member)] at holds
    exact ⟨names, listed, member, holds⟩

theorem isAt_created {tree : DirectoryTree platform β} {root : List Char} {names : List (List Char)}
    (listed : tree.subdirectories (place platform.isSeparator root) = some names)
    {name : List Char} (member : name ∈ names) (name' : List Char) :
    isAt platform root name' (FileSystemDataSet.create platform
      (combine platform.isSeparator platform.separator root name)) = true ↔ name = name' := by
  have isName := tree.named _ _ listed name member
  have inside : place platform.isSeparator
      (combine platform.isSeparator platform.separator root name) =
        (place platform.isSeparator root).inside name := place_combine separator_separates isName
  simp [isAt, FileSystemDataSet.create, inside, Place.inside]

theorem mem_dataSetsIn {tree : DirectoryTree platform β} {root : List Char}
    {names : List (List Char)}
    (listed : tree.subdirectories (place platform.isSeparator root) = some names)
    {dataSet : FileSystemDataSet} : dataSet ∈ dataSetsIn tree root ↔
      ∃ name, Present tree root name ∧ dataSet = FileSystemDataSet.create platform
        (combine platform.isSeparator platform.separator root name) := by
  simp only [dataSetsIn, listed, Option.getD_some, List.mem_map, List.mem_filter,
    present_iff listed]
  constructor
  · rintro ⟨_, ⟨⟨name, member, rfl⟩, holds⟩, rfl⟩
    exact ⟨name, ⟨member, holds⟩, rfl⟩
  · rintro ⟨name, ⟨member, holds⟩, rfl⟩
    exact ⟨_, ⟨⟨name, member, rfl⟩, holds⟩, rfl⟩

theorem dataSetsIn_once {tree : DirectoryTree platform β} {root name : List Char}
    (enumerates : Enumerates tree root) (present : Present tree root name) :
    (dataSetsIn tree root).countP (isAt platform root name) = 1 := by
  obtain ⟨names, listed, distinct⟩ := enumerates
  obtain ⟨member, holds⟩ := (present_iff listed name).mp present
  have kept : name ∈ names.filter (hasManifest tree ∘
      combine platform.isSeparator platform.separator root) :=
    List.mem_filter.mpr ⟨member, holds⟩
  rw [dataSetsIn, listed, Option.getD_some, List.filter_map, List.map_map, List.countP_map]
  rw [← List.count_eq_one_of_mem (distinct.filter _) kept, List.count]
  apply List.countP_congr
  intro other listed'
  have created := isAt_created listed (List.mem_filter.mp listed').1 name
  simpa using created

theorem dataSetsIn_isEmpty {tree : DirectoryTree platform β} {root : List Char}
    (enumerates : Enumerates tree root) :
    dataSetsIn tree root = [] ↔ ∀ name, ¬Present tree root name := by
  obtain ⟨names, listed, _⟩ := enumerates
  rw [List.eq_nil_iff_forall_not_mem]
  constructor
  · intro none name present
    exact none _ ((mem_dataSetsIn listed).mpr ⟨name, present, rfl⟩)
  · intro none dataSet found
    obtain ⟨name, present, _⟩ := (mem_dataSetsIn listed).mp found
    exact none name present

theorem runInitialize_adds {tree : DirectoryTree platform β} {source : LocalFileDataSource}
    (enumerates : Enumerates tree source.rootPath) (consistent : Consistent source) :
    ∃ source', runInitialize tree source = .ok (source', source'.isAvailable) ∧
      Consistent source' ∧ source'.rootPath = source.rootPath ∧
      source'.dataSets = source.dataSets ++ dataSetsIn tree source.rootPath := by
  obtain ⟨names, listed, _⟩ := enumerates
  have kept : (source.isAvailable || !(source.dataSets ++ dataSetsIn tree source.rootPath).isEmpty) =
      !(source.dataSets ++ dataSetsIn tree source.rootPath).isEmpty := by
    rw [consistent]
    cases source.dataSets <;> simp
  have enumerated : enumerateDirectories tree source.rootPath =
      .ok (names.map (combine platform.isSeparator platform.separator source.rootPath)) := by
    rw [enumerateDirectories, listed]
  have found : dataSetsIn tree source.rootPath =
      ((names.map (combine platform.isSeparator platform.separator source.rootPath)).filter
        (hasManifest tree)).map (FileSystemDataSet.create platform) := by
    rw [dataSetsIn, listed, Option.getD_some]
  refine ⟨⟨source.rootPath, !(source.dataSets ++ dataSetsIn tree source.rootPath).isEmpty,
    source.dataSets ++ dataSetsIn tree source.rootPath⟩, ?_, rfl, rfl, rfl⟩
  simp only [runInitialize, enumerated, bind, Except.bind, ← found, kept]
  rfl

theorem foldlM_adds {calls : List (DirectoryTree platform β)} (state : LocalFileDataSource × Bool)
    (enumerates : ∀ tree ∈ calls, Enumerates tree state.1.rootPath)
    (consistent : Consistent state.1) :
    ∃ state', calls.foldlM (fun state tree => runInitialize tree state.1) state = .ok state' ∧
      Consistent state'.1 ∧ state'.1.rootPath = state.1.rootPath ∧
      state'.1.dataSets =
        state.1.dataSets ++ calls.flatMap (dataSetsIn · state.1.rootPath) := by
  induction calls generalizing state with
  | nil => exact ⟨state, rfl, consistent, rfl, by simp⟩
  | cons tree rest ih =>
      obtain ⟨here, later⟩ := List.forall_mem_cons.mp enumerates
      obtain ⟨source', called, consistent', sameRoot, added⟩ := runInitialize_adds here consistent
      rw [← sameRoot] at later
      obtain ⟨state'', looped, consistent'', sameRoot', added'⟩ :=
        ih (source', source'.isAvailable) later consistent'
      refine ⟨state'', ?_, consistent'', sameRoot'.trans sameRoot, ?_⟩
      · rw [List.foldlM_cons, called]
        exact looped
      · rw [added', added, sameRoot, List.flatMap_cons, List.append_assoc]

/-- Every call adds to the list, and the last one returns whether there is anything in it. -/
theorem runCalls_adds {root : List Char} {earlier : List (DirectoryTree platform β)}
    {last : DirectoryTree platform β}
    (enumerates : ∀ tree ∈ earlier ++ [last], Enumerates tree root) :
    ∃ source, runCalls (earlier ++ [last]) (.create root) = .ok (source, source.isAvailable) ∧
      Consistent source ∧ source.rootPath = root ∧
      source.dataSets = earlier.flatMap (dataSetsIn · root) ++ dataSetsIn last root := by
  obtain ⟨before, now⟩ := List.forall_mem_append.mp enumerates
  obtain ⟨state, looped, consistent, sameRoot, added⟩ :=
    foldlM_adds (create root, false) before rfl
  have here : Enumerates last state.1.rootPath := by
    rw [sameRoot]
    exact now last List.mem_cons_self
  obtain ⟨source, called, consistent', sameRoot', added'⟩ := runInitialize_adds here consistent
  refine ⟨source, ?_, consistent', sameRoot'.trans sameRoot, ?_⟩
  · simp only [runCalls, List.foldlM_append, looped, List.foldlM_cons, List.foldlM_nil,
      bind, Except.bind, called]
    rfl
  · rw [added', added, sameRoot]
    simp [create]

theorem reflectsDirectory_iff {source : LocalFileDataSource} {returned : Bool}
    {tree : DirectoryTree platform β} {older : List FileSystemDataSet}
    (enumerates : Enumerates tree source.rootPath) (consistent : Consistent source)
    (added : source.dataSets = older ++ dataSetsIn tree source.rootPath)
    (result : returned = source.isAvailable) :
    ReflectsDirectory tree source returned ↔ older = [] := by
  obtain ⟨names, listed, _⟩ := id enumerates
  constructor
  · intro reflects
    by_contra nonempty
    obtain ⟨dataSet, isOlder⟩ := List.exists_mem_of_ne_nil older nonempty
    have isListed : dataSet ∈ source.getDataSets := by
      rw [getDataSets, added]
      exact List.mem_append_left _ isOlder
    obtain ⟨name, present, located⟩ := reflects.only dataSet isListed
    have count := reflects.once name present
    have before : 0 < older.countP (isAt platform source.rootPath name) :=
      List.countP_pos_iff.mpr ⟨dataSet, isOlder, located⟩
    have now := dataSetsIn_once enumerates present
    rw [getDataSets, added, List.countP_append] at count
    omega
  · rintro rfl
    rw [List.nil_append] at added
    refine ⟨?_, ?_, ?_, result.symm⟩
    · intro name present
      rw [getDataSets, added]
      exact dataSetsIn_once enumerates present
    · intro dataSet isListed
      rw [getDataSets, added] at isListed
      obtain ⟨name, present, rfl⟩ := (mem_dataSetsIn listed).mp isListed
      obtain ⟨member, _⟩ := (present_iff listed name).mp present
      exact ⟨name, present, (isAt_created listed member name).mpr rfl⟩
    · rw [result, consistent, added]
      have none := dataSetsIn_isEmpty enumerates
      by_cases empty : dataSetsIn tree source.rootPath = []
      · simpa [empty] using none.mp empty
      · simpa [empty] using mt none.mpr empty

/-- The last call lists what is there then exactly when no call before it found a data set. -/
theorem runCalls_reflects_iff {root : List Char} {earlier : List (DirectoryTree platform β)}
    {last : DirectoryTree platform β}
    (enumerates : ∀ tree ∈ earlier ++ [last], Enumerates tree root) :
    ∃ source returned, runCalls (earlier ++ [last]) (.create root) = .ok (source, returned) ∧
      source.rootPath = root ∧
      (ReflectsDirectory last source returned ↔
        ∀ tree ∈ earlier, ∀ name, ¬Present tree root name) := by
  obtain ⟨source, called, consistent, rfl, added⟩ := runCalls_adds enumerates
  obtain ⟨before, now⟩ := List.forall_mem_append.mp enumerates
  refine ⟨source, source.isAvailable, called, rfl, ?_⟩
  rw [reflectsDirectory_iff (now last List.mem_cons_self) consistent added rfl,
    List.flatMap_eq_nil_iff]
  constructor
  · intro none tree listed
    exact (dataSetsIn_isEmpty (before tree listed)).mp (none tree listed)
  · intro none tree listed
    exact (dataSetsIn_isEmpty (before tree listed)).mpr (none tree listed)

theorem commonTree_enumerates : Enumerates commonTree "Data".toList :=
  ⟨["Common".toList], rfl, List.nodup_singleton _⟩

def vacantTree : DirectoryTree .unix (List DataSetItem) :=
  { commonTree with readFile := fun _ => none }

theorem commonTree_filled :
    ∃ source returned, runCalls ([vacantTree] ++ [commonTree]) (.create "Data".toList) =
      .ok (source, returned) ∧ source.rootPath = "Data".toList ∧
      ReflectsDirectory commonTree source returned := by
  have vacant : Enumerates vacantTree "Data".toList := commonTree_enumerates
  have enumerates : ∀ tree ∈ [vacantTree] ++ [commonTree], Enumerates tree "Data".toList :=
    List.forall_mem_cons.mpr ⟨vacant, List.forall_mem_singleton.mpr commonTree_enumerates⟩
  obtain ⟨source, returned, called, root, reflects⟩ := runCalls_reflects_iff enumerates
  refine ⟨source, returned, called, root, reflects.mpr (List.forall_mem_singleton.mpr ?_)⟩
  rintro name ⟨_, _, _, holds⟩
  cases holds

theorem commonTree_twice :
    runCalls [commonTree, commonTree] (.create "Data".toList) =
      .ok (⟨"Data".toList, true, [.create .unix "Data/Common".toList,
        .create .unix "Data/Common".toList]⟩, true) ∧
    ¬ReflectsDirectory commonTree ⟨"Data".toList, true, [.create .unix "Data/Common".toList,
        .create .unix "Data/Common".toList]⟩ true := by
  refine ⟨by rfl, fun reflects => ?_⟩
  have once := reflects.once "Common".toList ⟨["Common".toList], rfl, List.mem_singleton_self _, rfl⟩
  exact absurd once (by decide)

end Stad.LocalFileDataSource
