import Stad.LoadingCore
import Stad.PathText

/-!
Executable model of `FileSystemDataSet` and `LocalFileDataSource`, and what their
paths mean. The name of a data set is what its path ends with, and its files are
looked for where that text goes on, so a path can be right for only one of them.
-/

namespace Stad

open PathText

inductive Platform where
  | unix
  | windows
  deriving DecidableEq, Repr

def Platform.isSeparator : Platform → Char → Bool
  | unix, letter => letter = '/'
  | windows, letter => letter = '/' || letter = '\\'

def Platform.separator : Platform → Char
  | unix => '/'
  | windows => '\\'

/-- What the file system holds at each place, and the names of its directories. -/
structure DirectoryTree (platform : Platform) (β : Type) where
  readFile : Place Char → Option β
  subdirectories : Place Char → Option (List (List Char))
  named : ∀ directory names, subdirectories directory = some names →
    ∀ name ∈ names, IsName platform.isSeparator name

def Constants.dataSetManifestPath : List Char := "Manifest.json".toList

def EncodingType.toName : EncodingType → List Char
  | undefined => "Undefined".toList
  | messagePack => "MessagePack".toList
  | json => "Json".toList

def DataSetItem.contentName (item : DataSetItem) : List Char :=
  item.name.toList ++ '.' :: item.encodingType.toName

structure FileSystemDataSet where
  name : List Char
  rootPath : List Char
  deriving DecidableEq, Repr

section Model

variable {platform : Platform} {β τ ν : Type}

def DirectoryTree.itemsAt (tree : DirectoryTree platform β)
    (deserialize : β → Except Thrown (Option (List DataSetItem))) (file : Place Char) :
    Except Thrown (Option (Option (List DataSetItem))) :=
  match tree.readFile file with
  | none => .ok none
  | some content => do return some (← deserialize content)

namespace FileSystemDataSet

def create (platform : Platform) (rootPath : List Char) : FileSystemDataSet :=
  ⟨fileName platform.isSeparator rootPath, rootPath⟩

def manifestPath (dataSet : FileSystemDataSet) : List Char :=
  dataSet.rootPath ++ Constants.dataSetManifestPath

def getItems (tree : DirectoryTree platform β)
    (deserialize : β → Except Thrown (Option (List DataSetItem))) (dataSet : FileSystemDataSet) :
    Except Thrown (Option (Option (List DataSetItem))) :=
  tree.itemsAt deserialize (place platform.isSeparator dataSet.manifestPath)

def createFormatter (item : DataSetItem) : Bool :=
  match item.encodingType with
  | .json => true
  | _ => false

def contentPath (dataSet : FileSystemDataSet) (item : DataSetItem) : List Char :=
  dataSet.rootPath ++ item.contentName

def readContent (tree : DirectoryTree platform β) (dataSet : FileSystemDataSet)
    (item : DataSetItem) : Except Thrown β :=
  match tree.readFile (place platform.isSeparator (dataSet.contentPath item)) with
  | none => .error (.exception "Could not find file")
  | some content => .ok content

def loadAsync (tree : DirectoryTree platform β)
    (callGenericDeserialize : τ → Bool → β → Except Thrown ν) (dataSet : FileSystemDataSet)
    (type : τ) (item : DataSetItem) : Except Thrown ν := do
  let content ← readContent tree dataSet item
  callGenericDeserialize type (createFormatter item) content

end FileSystemDataSet

structure LocalFileDataSource where
  rootPath : List Char
  isAvailable : Bool
  dataSets : List FileSystemDataSet
  deriving DecidableEq, Repr

namespace LocalFileDataSource

def create (rootPath : List Char) : LocalFileDataSource := ⟨rootPath, false, []⟩

def enumerateDirectories (tree : DirectoryTree platform β) (path : List Char) :
    Except Thrown (List (List Char)) :=
  match tree.subdirectories (place platform.isSeparator path) with
  | none => .error (.exception "Could not find a part of the path")
  | some names => .ok (names.map (combine platform.isSeparator platform.separator path))

def hasManifest (tree : DirectoryTree platform β) (directory : List Char) : Bool :=
  (tree.readFile (place platform.isSeparator
    (combine platform.isSeparator platform.separator directory
      Constants.dataSetManifestPath))).isSome

def runInitialize (tree : DirectoryTree platform β) (source : LocalFileDataSource) :
    Except Thrown (LocalFileDataSource × Bool) := do
  let directories ← enumerateDirectories tree source.rootPath
  let dataSets := source.dataSets ++
    (directories.filter (hasManifest tree)).map (FileSystemDataSet.create platform)
  let found := !dataSets.isEmpty
  return ({ source with dataSets, isAvailable := source.isAvailable || found }, found)

end LocalFileDataSource

end Model

/-- Name, manifest and contents are those of the directory that the path means. -/
structure AgreesOnPath (platform : Platform) (path : List Char) : Prop where
  name : ∀ last, (components platform.isSeparator path).getLast? = some last →
    (FileSystemDataSet.create platform path).name = last
  manifest : place platform.isSeparator (FileSystemDataSet.create platform path).manifestPath =
    (place platform.isSeparator path).inside Constants.dataSetManifestPath
  contents : ∀ item : DataSetItem,
    (∀ letter ∈ item.name.toList, platform.isSeparator letter = false) →
    place platform.isSeparator ((FileSystemDataSet.create platform path).contentPath item) =
      (place platform.isSeparator path).inside item.contentName

section Agreement

variable {platform : Platform} {β : Type}

/-- Every data set that was found gives the items of the manifest it was found by. -/
def DiscoveryAgrees (tree : DirectoryTree platform β)
    (deserialize : β → Except Thrown (Option (List DataSetItem))) (root : List Char) : Prop :=
  ∀ source available,
    LocalFileDataSource.runInitialize tree (.create root) = .ok (source, available) →
    ∀ dataSet ∈ source.dataSets, dataSet.getItems tree deserialize =
      tree.itemsAt deserialize ((place platform.isSeparator dataSet.rootPath).inside
        Constants.dataSetManifestPath)

/-- Next to each directory with a manifest there is a file, named after both,
that reads like the manifest. -/
def ReadsAlike (tree : DirectoryTree platform β)
    (deserialize : β → Except Thrown (Option (List DataSetItem))) (root : Place Char) : Prop :=
  ∀ names, tree.subdirectories root = some names → ∀ name ∈ names,
    (tree.readFile ((root.inside name).inside Constants.dataSetManifestPath)).isSome →
    tree.itemsAt deserialize (root.inside (name ++ Constants.dataSetManifestPath)) =
      tree.itemsAt deserialize ((root.inside name).inside Constants.dataSetManifestPath)

theorem separator_separates : platform.isSeparator platform.separator = true := by
  cases platform <;> rfl

theorem manifest_isName : IsName platform.isSeparator Constants.dataSetManifestPath := by
  cases platform <;> exact IsName.of_all (by decide) rfl

theorem contentName_isName {item : DataSetItem}
    (plain : ∀ letter ∈ item.name.toList, platform.isSeparator letter = false) :
    IsName platform.isSeparator item.contentName := by
  have suffix : ∀ encodingType : EncodingType,
      IsName platform.isSeparator ('.' :: encodingType.toName) := by
    intro encodingType
    cases platform <;> cases encodingType <;> exact IsName.of_all (by decide) rfl
  exact ⟨by simp [DataSetItem.contentName],
    List.forall_mem_append.mpr ⟨plain, (suffix item.encodingType).plain⟩⟩

theorem agreesOnPath_iff (path : List Char) :
    AgreesOnPath platform path ↔ components platform.isSeparator path = [] := by
  constructor
  · rintro ⟨name, manifest, -⟩
    have ended := (place_append_iff manifest_isName).mp manifest
    rcases last_component_iff.mp name with nonempty | none
    · exact absurd ended nonempty
    · exact none
  · intro none
    have ended := components_eq_nil none
    refine ⟨last_component_iff.mpr (Or.inr none), (place_append_iff manifest_isName).mpr ended, ?_⟩
    exact fun item plain => (place_append_iff (contentName_isName plain)).mpr ended

theorem runInitialize_cases {tree : DirectoryTree platform β} {root : List Char}
    {source : LocalFileDataSource} {available : Bool}
    (initialized : LocalFileDataSource.runInitialize tree (.create root) = .ok (source, available)) :
    ∃ names, tree.subdirectories (place platform.isSeparator root) = some names ∧
      source.dataSets =
        ((names.map (combine platform.isSeparator platform.separator root)).filter
          (LocalFileDataSource.hasManifest tree)).map (FileSystemDataSet.create platform) := by
  unfold LocalFileDataSource.runInitialize LocalFileDataSource.enumerateDirectories at initialized
  cases listed : tree.subdirectories (place platform.isSeparator root) with
  | none => simp [LocalFileDataSource.create, listed, bind, Except.bind] at initialized
  | some names =>
      simp only [LocalFileDataSource.create, listed, bind, Except.bind, pure, Except.pure,
        Except.ok.injEq, Prod.mk.injEq, List.nil_append] at initialized
      exact ⟨names, rfl, by rw [← initialized.1]⟩

theorem runInitialize_returns {tree : DirectoryTree platform β} {root : List Char}
    {names : List (List Char)}
    (listed : tree.subdirectories (place platform.isSeparator root) = some names) :
    ∃ source available,
      LocalFileDataSource.runInitialize tree (.create root) = .ok (source, available) := by
  simp only [LocalFileDataSource.runInitialize, LocalFileDataSource.enumerateDirectories,
    LocalFileDataSource.create, listed]
  exact ⟨_, _, rfl⟩

theorem place_manifest {root name : List Char} (isName : IsName platform.isSeparator name) :
    place platform.isSeparator
        (FileSystemDataSet.create platform
          (combine platform.isSeparator platform.separator root name)).manifestPath =
      (place platform.isSeparator root).inside (name ++ Constants.dataSetManifestPath) := by
  rw [FileSystemDataSet.manifestPath, FileSystemDataSet.create, combine_append]
  exact place_combine separator_separates (isName.append manifest_isName.plain)

theorem hasManifest_iff (tree : DirectoryTree platform β) {root name : List Char}
    (isName : IsName platform.isSeparator name) :
    LocalFileDataSource.hasManifest tree
        (combine platform.isSeparator platform.separator root name) =
      (tree.readFile (((place platform.isSeparator root).inside name).inside
        Constants.dataSetManifestPath)).isSome := by
  rw [LocalFileDataSource.hasManifest, place_combine separator_separates manifest_isName,
    place_combine separator_separates isName]

theorem discoveryAgrees_iff (tree : DirectoryTree platform β)
    (deserialize : β → Except Thrown (Option (List DataSetItem))) (root : List Char) :
    DiscoveryAgrees tree deserialize root ↔
      ReadsAlike tree deserialize (place platform.isSeparator root) := by
  constructor
  · intro agrees names listed name member present
    have isName := tree.named _ _ listed name member
    obtain ⟨source, available, initialized⟩ := runInitialize_returns listed
    obtain ⟨names', listed', found⟩ := runInitialize_cases initialized
    rw [listed, Option.some.injEq] at listed'
    subst listed'
    have kept := agrees source available initialized
      (FileSystemDataSet.create platform
        (combine platform.isSeparator platform.separator root name)) (by
          rw [found]
          refine List.mem_map_of_mem (List.mem_filter.mpr ⟨List.mem_map_of_mem member, ?_⟩)
          rw [hasManifest_iff tree isName]
          exact present)
    rw [FileSystemDataSet.getItems, place_manifest isName] at kept
    rw [kept]
    exact congrArg (fun directory => tree.itemsAt deserialize
      (Place.inside directory Constants.dataSetManifestPath)) (place_combine separator_separates isName)
  · intro alike source available initialized dataSet member
    obtain ⟨names, listed, found⟩ := runInitialize_cases initialized
    rw [found] at member
    obtain ⟨directory, kept, rfl⟩ := List.mem_map.mp member
    obtain ⟨enumerated, present⟩ := List.mem_filter.mp kept
    obtain ⟨name, inNames, rfl⟩ := List.mem_map.mp enumerated
    have isName := tree.named _ _ listed name inNames
    rw [hasManifest_iff tree isName] at present
    rw [FileSystemDataSet.getItems, place_manifest isName, alike names listed name inNames present]
    exact congrArg (fun directory => tree.itemsAt deserialize
      (Place.inside directory Constants.dataSetManifestPath))
        (place_combine separator_separates isName).symm

/-- A path agrees with itself everywhere only where it has no component, and the
data sets that were found agree with their manifests only by way of other files. -/
theorem paths_agree_iff (tree : DirectoryTree platform β)
    (deserialize : β → Except Thrown (Option (List DataSetItem))) :
    (∀ path, AgreesOnPath platform path ↔ components platform.isSeparator path = []) ∧
      ∀ root, DiscoveryAgrees tree deserialize root ↔
        ReadsAlike tree deserialize (place platform.isSeparator root) :=
  ⟨agreesOnPath_iff, discoveryAgrees_iff tree deserialize⟩

end Agreement

/-! The directory `Data` with the data set `Common`, whose manifest lists one item. -/

def commonItem : DataSetItem := ⟨"SampleSingleModel", 111, .json⟩

def commonTree : DirectoryTree .unix (List DataSetItem) where
  readFile file :=
    if file = ⟨false, ["Data".toList, "Common".toList, "Manifest.json".toList]⟩ then
      some [commonItem]
    else none
  subdirectories directory :=
    if directory = ⟨false, ["Data".toList]⟩ then some ["Common".toList] else none
  named := by
    intro directory names listed name member
    split at listed
    · simp only [Option.some.injEq] at listed
      rw [← listed, List.mem_singleton] at member
      rw [member]
      exact IsName.of_all (by decide) rfl
    · cases listed

theorem common_disagrees :
    ((FileSystemDataSet.create .unix "Common/".toList).name = [] ∧
      ¬AgreesOnPath .unix "Common/".toList) ∧
    ((FileSystemDataSet.create .unix "Common".toList).manifestPath =
        "CommonManifest.json".toList ∧ ¬AgreesOnPath .unix "Common".toList) ∧
    LocalFileDataSource.runInitialize commonTree (.create "Data".toList) =
      .ok (⟨"Data".toList, true, [.create .unix "Data/Common".toList]⟩, true) ∧
    (FileSystemDataSet.create .unix "Data/Common".toList).getItems commonTree
      (fun items => .ok (some items)) = .ok none ∧
    ¬DiscoveryAgrees commonTree (fun items => .ok (some items)) "Data".toList := by
  have listed : LocalFileDataSource.runInitialize commonTree (.create "Data".toList) =
      .ok (⟨"Data".toList, true, [.create .unix "Data/Common".toList]⟩, true) := by rfl
  have missed : (FileSystemDataSet.create .unix "Data/Common".toList).getItems commonTree
      (fun items => .ok (some items)) = .ok none := by rfl
  refine ⟨⟨by rfl, fun agrees => ?_⟩, ⟨by rfl, fun agrees => ?_⟩, listed, missed, fun agrees => ?_⟩
  · exact absurd (agrees.name "Common".toList (by decide)) (by decide)
  · exact absurd agrees.manifest (by decide)
  · have found := agrees _ _ listed _ (List.mem_singleton_self _)
    rw [missed] at found
    exact absurd found (by decide)

end Stad
