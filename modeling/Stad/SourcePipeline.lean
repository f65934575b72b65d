import Stad.CompilationOutcome
import Stad.ProjectSources

/-!
`MakeRegistryFromSource` from the directory to the registry. The texts of a directory
are parsed, compiled, collected and analyzed. What a build leaves behind has no part in it.
-/

namespace Stad.StadAnalyzer

open Bounded Bounded.Outcome Relation PseudoCompilation

structure Compiler (tree node σ : Type) where
  parseText : String → tree
  descendantNodes : tree → List node
  getDeclaredSymbol : List tree → List String → node →
    Option (TypeCollectorForCompilation.DeclaredSymbol σ)
  symbols : List tree → List String → TypeSymbols σ

structure Files where
  world : World
  readAllText : String → Except Thrown String

variable {tree node σ : Type} [DecidableEq σ]

def makeRegistryFromSource (files : Files) (compiler : Compiler tree node σ) (comparer : Comparer)
    (standardReferences : List String) (depth : Nat) (rootPath : String) :
    Outcome Thrown StadRegistry := do
  let (paths, references) ← createFromDirectory files.world standardReferences depth rootPath
  let texts ← ofExcept (paths.mapM fun file =>
    files.readAllText (normalizeDirectorySeparators files.world file))
  let syntaxTrees := texts.map compiler.parseText
  let result ← TypeCollectorForCompilation.collect (compiler.symbols syntaxTrees references) true
    comparer (TypeCollectorForCompilation.getNamedTypeSymbols
      (compiler.getDeclaredSymbol syntaxTrees references)
      (syntaxTrees.map compiler.descendantNodes)) depth
  makeRegistry result depth

/-- The same platform, and the same directories and files but for what is below a `bin` or
an `obj`. -/
structure BuiltIn (root : String) (before after : Files) : Prop where
  directoryName : after.world.directoryName = before.world.directoryName
  getFileName : after.world.getFileName = before.world.getFileName
  directorySeparator : after.world.directorySeparator = before.world.directorySeparator
  files : ∀ directory, ReflTransGen (Below before.world) root directory →
    after.world.files directory = before.world.files directory
  directories : ∀ directory, ReflTransGen (Below before.world) root directory →
    (after.world.directories directory).map
        (·.filter fun child => !isBinOrObj before.world child) =
      (before.world.directories directory).map
        (·.filter fun child => !isBinOrObj before.world child)
  texts : ∀ directory, ReflTransGen (Below before.world) root directory →
    ∀ listed, before.world.files directory = .ok listed → ∀ file ∈ listed,
      after.readAllText (normalizeDirectorySeparators before.world file) =
        before.readAllText (normalizeDirectorySeparators before.world file)

variable {root : String} {before after : Files}

theorem BuiltIn.isBinOrObj_eq (built : BuiltIn root before after) (directory : String) :
    isBinOrObj after.world directory = isBinOrObj before.world directory := by
  simp only [isBinOrObj, built.directoryName]

theorem BuiltIn.normalize_eq (built : BuiltIn root before after) (file : String) :
    normalizeDirectorySeparators after.world file =
      normalizeDirectorySeparators before.world file := by
  simp only [normalizeDirectorySeparators, built.directorySeparator]

theorem BuiltIn.distinct_eq (built : BuiltIn root before after) (locations : List String) :
    distinctReference after.world locations = distinctReference before.world locations := by
  simp only [distinctReference, built.getFileName]

theorem csFile_enter (world : World) (directory : String) (yielded : List String) :
    (csFileWalker world).enter directory yielded = do
      let files ← ofExcept (world.files directory)
      let kept ← ofExcept ((world.directories directory).map
        (·.filter fun child => !isBinOrObj world child))
      return (yielded ++ files, kept) := by
  cases directories : world.directories directory <;> simp [csFileWalker, directories, Except.map]

theorem BuiltIn.enter_eq (built : BuiltIn root before after) {directory : String}
    (path : ReflTransGen (Below before.world) root directory) (yielded : List String) :
    (csFileWalker before.world).enter directory yielded =
      (csFileWalker after.world).enter directory yielded := by
  simp only [csFile_enter, built.isBinOrObj_eq, built.files directory path,
    built.directories directory path]

theorem BuiltIn.search_eq (built : BuiltIn root before after) (depth : Nat) :
    iterateCsFileWithoutBinObj before.world depth root =
      iterateCsFileWithoutBinObj after.world depth root := by
  refine TreeWalk.Walker.walk_congr (fun directory path => built.enter_eq path)
    (fun _ _ _ => rfl) ?_ depth .refl []
  intro directory path yielded entered children entering child listed
  obtain ⟨files, _, entering⟩ := bind_eq_value.mp entering
  obtain ⟨below, found, same⟩ := bind_eq_value.mp entering
  cases same
  refine path.tail ?_
  rw [Below, keptDirectories, ofExcept_eq_value.mp found]
  exact listed

theorem search_file {world : World} {depth : Nat} {files : List String}
    (returned : iterateCsFileWithoutBinObj world depth root = value files) {file : String}
    (member : file ∈ files) :
    ∃ directory, ReflTransGen (Below world) root directory ∧
      ∃ listed, world.files directory = .ok listed ∧ file ∈ listed := by
  rw [iterateCsFile_files returned, List.mem_flatMap] at member
  obtain ⟨directory, visited, inDirectory⟩ := member
  refine ⟨directory, TreeWalk.mem_preorder visited, ?_⟩
  rw [filesIn] at inDirectory
  split at inDirectory
  · rename_i listed found
    exact ⟨listed, found, inDirectory⟩
  · cases inDirectory

theorem mapM_congr_of_mem {α β ε : Type} {read read' : α → Except ε β} {items : List α}
    (same : ∀ item ∈ items, read item = read' item) : items.mapM read = items.mapM read' := by
  induction items with
  | nil => rfl
  | cons item rest ih =>
      obtain ⟨here, later⟩ := List.forall_mem_cons.mp same
      rw [List.mapM_cons, List.mapM_cons, here, ih later]

/-- The registry is the same before and after a build, and so are the exceptions. -/
theorem makeRegistryFromSource_ignoresBuild (built : BuiltIn root before after)
    (compiler : Compiler tree node σ) (comparer : Comparer) (standardReferences : List String)
    (depth : Nat) :
    makeRegistryFromSource after compiler comparer standardReferences depth root =
      makeRegistryFromSource before compiler comparer standardReferences depth root := by
  have created : createFromDirectory after.world standardReferences depth root =
      createFromDirectory before.world standardReferences depth root := by
    rw [createFromDirectory, ← built.search_eq, built.distinct_eq, createFromDirectory]
  rw [makeRegistryFromSource, created, makeRegistryFromSource]
  cases found : createFromDirectory before.world standardReferences depth root with
  | error thrown => rfl
  | exhausted => rfl
  | value compilation =>
      obtain ⟨files, searched, same⟩ := bind_eq_value.mp found
      have texts : compilation.1.mapM (fun file =>
          after.readAllText (normalizeDirectorySeparators after.world file)) =
          compilation.1.mapM fun file =>
            before.readAllText (normalizeDirectorySeparators before.world file) := by
        cases same
        refine mapM_congr_of_mem fun file member => ?_
        obtain ⟨directory, path, listed, found, inDirectory⟩ := search_file searched member
        rw [built.normalize_eq]
        exact built.texts directory path listed found file inDirectory
      simp only [value_bind, texts]

/-! The directory `/s` with `lib`, before and after a build that adds `obj` and fills `bin`. -/

def holderText : String :=
  "[DataSetDefinition] public class Holder \x7b public Leaf Leaf \x7b get; \x7d \x7d"

def leafText : String := "public class Leaf \x7b \x7d"

def sampleSymbols : TypeSymbols Bool :=
  { holderAndLeaf with getAttributes := fun type =>
      if type then [⟨some "global::Stad.Annotation.DataSetDefinitionAttribute", []⟩]
      else [obsoleteData] }

def sampleCompiler : Compiler String Bool Bool where
  parseText := id
  descendantNodes tree :=
    if tree = holderText then [true] else if tree = leafText then [false] else []
  getDeclaredSymbol _ _ declared := some (.namedType declared)
  symbols _ _ := sampleSymbols

def listing (directories files : List String) : World :=
  { twoProjects with
    files := fun directory => .ok (files.filter fun file =>
      twoProjects.getDirectoryName file == directory && file.endsWith ".cs")
    directories := fun directory => .ok (directories.filter fun child =>
      twoProjects.getDirectoryName child == directory)
    dllFiles := fun directory => .ok (files.filter fun file =>
      twoProjects.getDirectoryName file == directory && file.endsWith ".dll")
    directoryExists := (directories.contains ·)
    fileExists := (files.contains ·) }

def readSource (path : String) : Except Thrown String :=
  if path = "/s/Holder.cs" then .ok holderText
  else if path = "/s/lib/Leaf.cs" then .ok leafText
  else .error .argument

def beforeBuild : Files where
  world := listing ["/s", "/s/bin", "/s/lib"] ["/s/Holder.cs", "/s/lib/Leaf.cs"]
  readAllText := readSource

def afterBuild : Files where
  world := listing ["/s", "/s/obj", "/s/bin", "/s/lib"]
    ["/s/obj/Generated.cs", "/s/bin/s.dll", "/s/Holder.cs", "/s/lib/Leaf.cs"]
  readAllText := readSource

theorem beforeBuild_reached {directory : String}
    (path : ReflTransGen (Below beforeBuild.world) "/s" directory) :
    directory = "/s" ∨ directory = "/s/lib" := by
  induction path with
  | refl => exact Or.inl rfl
  | tail _ below ih =>
      rcases ih with rfl | rfl
      · have kept : keptDirectories beforeBuild.world "/s" = ["/s/lib"] := by decide +kernel
        rw [Below, kept, List.mem_singleton] at below
        exact Or.inr below
      · have kept : keptDirectories beforeBuild.world "/s/lib" = [] := by decide +kernel
        rw [Below, kept] at below
        cases below

theorem afterBuild_built : BuiltIn "/s" beforeBuild afterBuild where
  directoryName := rfl
  getFileName := rfl
  directorySeparator := rfl
  files directory path := by
    rcases beforeBuild_reached path with rfl | rfl <;> decide +kernel
  directories directory path := by
    rcases beforeBuild_reached path with rfl | rfl <;> decide +kernel
  texts _ _ _ _ _ _ := rfl

theorem sample_ignoresBuild :
    makeRegistryFromSource afterBuild sampleCompiler TypeCollectorForAssembly.ordinal [] 3 "/s" =
      makeRegistryFromSource beforeBuild sampleCompiler TypeCollectorForAssembly.ordinal [] 3
        "/s" :=
  makeRegistryFromSource_ignoresBuild afterBuild_built sampleCompiler
    TypeCollectorForAssembly.ordinal [] 3

end Stad.StadAnalyzer
