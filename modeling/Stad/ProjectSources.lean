import Stad.ProjectFiles

/-!
Which sources and references a compilation gets: the files of the directories that are
neither `bin` nor `obj`, and what the projects name, in the order in which the projects
are collected.
-/

namespace Stad.PseudoCompilation

open Bounded Bounded.Outcome SetEdits TreeWalk Relation

section Directories

variable (world : World)

def filesIn (directory : String) : List String :=
  match world.files directory with
  | .ok files => files
  | .error _ => []

def keptDirectories (directory : String) : List String :=
  match world.directories directory with
  | .ok directories => directories.filter fun directory => !isBinOrObj world directory
  | .error _ => []

def Below (parent child : String) : Prop := child ∈ keptDirectories world parent

def Listable (directory : String) : Prop :=
  (∃ files, world.files directory = .ok files) ∧
    ∃ directories, world.directories directory = .ok directories

def csFileDeeds : Deeds String (List String) where
  children := keptDirectories world
  entering root yielded := yielded ++ filesIn world root
  leaving _ yielded := yielded

variable {world}

theorem csFileWalker_performs : Performs (csFileWalker world) (csFileDeeds world) := by
  constructor
  · intro root yielded entered found
    obtain ⟨files, listed, found⟩ := bind_eq_value.mp found
    obtain ⟨directories, below, found⟩ := bind_eq_value.mp found
    cases found
    simp [csFileDeeds, filesIn, keptDirectories, ofExcept_eq_value.mp listed,
      ofExcept_eq_value.mp below]
  · intro root yielded left found
    cases found
    rfl

theorem csFileWalker_sound {directory : String} (listable : Listable world directory) :
    Sound (csFileWalker world) directory := by
  obtain ⟨⟨files, listed⟩, directories, below⟩ := listable
  refine ⟨fun yielded => ⟨(yielded ++ files, directories.filter fun directory =>
    !isBinOrObj world directory), ?_⟩, fun yielded => ⟨yielded, rfl⟩⟩
  simp only [csFileWalker, listed, below, ofExcept_ok, value_bind, pure_eq]

theorem foldl_append_flatMap {α β : Type} (view : α → List β) (items : List α) (start : List β) :
    items.foldl (fun yielded item => yielded ++ view item) start = start ++ items.flatMap view := by
  induction items generalizing start with
  | nil => simp
  | cons item rest ih => rw [List.foldl_cons, ih, List.flatMap_cons, List.append_assoc]

theorem iterateCsFile_files {depth : Nat} {root : String} {files : List String}
    (returned : iterateCsFileWithoutBinObj world depth root = value files) :
    files = (preorder (keptDirectories world) depth root).flatMap (filesIn world) := by
  have walked := walk_returned csFileWalker_performs depth returned
  have entered := foldl_entered (csFileDeeds world) id
    (fun yielded root => yielded ++ filesIn world root) (fun _ _ => rfl) (fun _ _ => rfl)
    (trace (keptDirectories world) depth root) []
  rw [trace_entered, foldl_append_flatMap] at entered
  exact walked.trans entered

/-- The search for source files returns exactly when no chain of directories, none of them
`bin` or `obj`, goes on for ever, and then it has the files of all the directories on such
chains and no others. -/
theorem iterateCsFile_exact {root : String}
    (listable : ∀ directory, ReflTransGen (Below world) root directory → Listable world directory) :
    ((∃ depth files, iterateCsFileWithoutBinObj world depth root = value files) ↔
      Acc (fun child parent => Below world parent child) root) ∧
    ∀ depth files, iterateCsFileWithoutBinObj world depth root = value files → ∀ file,
      file ∈ files ↔ ∃ directory, ReflTransGen (Below world) root directory ∧
        ∃ listed, world.files directory = .ok listed ∧ file ∈ listed := by
  refine ⟨walk_returns_iff csFileWalker_performs
    (fun other path => csFileWalker_sound (listable other path)) [], ?_⟩
  intro depth files returned file
  rw [iterateCsFile_files returned, List.mem_flatMap]
  constructor
  · rintro ⟨directory, visited, member⟩
    have path := mem_preorder visited
    obtain ⟨⟨listed, found⟩, _⟩ := listable directory path
    refine ⟨directory, path, listed, found, ?_⟩
    rwa [filesIn, found] at member
  · rintro ⟨directory, path, listed, found, member⟩
    refine ⟨directory, walk_reaches csFileWalker_performs returned path, ?_⟩
    rwa [filesIn, found]

end Directories

section Projects

variable (world : World) (inner : Nat)

def editsOf (csproj : String) : List (Edit String) :=
  match projectEdits world inner csproj with
  | .value edits => edits
  | _ => []

def locationsOf (csproj : String) : List String :=
  match projectLocations world inner csproj with
  | .value locations => locations
  | _ => []

def projectDeeds : Deeds String Collected where
  children := projectReferences world
  entering csproj collected :=
    { collected with source := applyAll collected.source (editsOf world inner csproj) }
  leaving csproj collected :=
    { collected with
      metadataLocations := collected.metadataLocations ++ locationsOf world inner csproj }

variable {world inner}

theorem projectWalker_performs : Performs (projectWalker world inner) (projectDeeds world inner) := by
  constructor
  · intro csproj collected entered found
    obtain ⟨edits, read, found⟩ := bind_eq_value.mp found
    cases found
    simp [projectDeeds, editsOf, read]
  · intro csproj collected left found
    obtain ⟨locations, read, found⟩ := bind_eq_value.mp found
    cases found
    simp [projectDeeds, locationsOf, read]

theorem collectDocument_sources {depth : Nat} {csproj : String} {collected last : Collected}
    (returned : collectDocument world inner depth csproj collected = value last) :
    last.source = applyAll collected.source
      ((preorder (projectReferences world) depth csproj).flatMap (editsOf world inner)) := by
  have walked := walk_returned projectWalker_performs depth returned
  have entered := foldl_entered (projectDeeds world inner) Collected.source
    (fun source csproj => applyAll source (editsOf world inner csproj)) (fun _ _ => rfl)
    (fun _ _ => rfl) (trace (projectReferences world) depth csproj) collected
  rw [trace_entered, applyAll_flatMap] at entered
  exact (congrArg Collected.source walked).trans entered

theorem collectDocument_locations {depth : Nat} {csproj : String} {collected last : Collected}
    (returned : collectDocument world inner depth csproj collected = value last) :
    last.metadataLocations = collected.metadataLocations ++
      (postorder (projectReferences world) depth csproj).flatMap (locationsOf world inner) := by
  have walked := walk_returned projectWalker_performs depth returned
  have left := foldl_left (projectDeeds world inner) Collected.metadataLocations
    (fun locations csproj => locations ++ locationsOf world inner csproj) (fun _ _ => rfl)
    (fun _ _ => rfl) (trace (projectReferences world) depth csproj) collected
  rw [trace_left, foldl_append_flatMap] at left
  exact (congrArg Collected.metadataLocations walked).trans left

/-! What several projects come to. -/

theorem foldlM_sources {depth : Nat} {csprojs : List String} {first last : Collected}
    (returned : csprojs.foldlM (fun collected csproj =>
      collectDocument world inner depth csproj collected) first = value last) :
    last.source = applyAll first.source
        ((csprojs.flatMap (preorder (projectReferences world) depth)).flatMap
          (editsOf world inner)) ∧
      last.metadataLocations = first.metadataLocations ++
        (csprojs.flatMap (postorder (projectReferences world) depth)).flatMap
          (locationsOf world inner) := by
  refine foldlM_induction returned (fun done state =>
    state.source = applyAll first.source
        ((done.flatMap (preorder (projectReferences world) depth)).flatMap (editsOf world inner)) ∧
      state.metadataLocations = first.metadataLocations ++
        (done.flatMap (postorder (projectReferences world) depth)).flatMap
          (locationsOf world inner)) ⟨rfl, by simp⟩ ?_
  rintro done csproj rest state next - ⟨sources, locations⟩ stepped
  rw [collectDocument_sources stepped, collectDocument_locations stepped, sources, locations]
  simp only [List.flatMap_append, List.flatMap_singleton, applyAll_append, List.append_assoc,
    and_self]

/-- The sources of a compilation are the files that were added and not removed again by a
project that was collected later, a project being collected before those it refers to. -/
theorem createFromProject_sources {standardReferences : List String} {depth : Nat}
    {csprojs sources references : List String}
    (returned : createFromProject world standardReferences inner depth csprojs =
      value (sources, references)) (path : String) :
    path ∈ sources ↔ ∃ file, world.getFullPath file = path ∧
      lastEdit ((csprojs.flatMap (preorder (projectReferences world) depth)).flatMap
        (editsOf world inner)) file = some (.add file) := by
  obtain ⟨collected, run, same⟩ := bind_eq_value.mp returned
  cases same
  rw [List.mem_eraseDups, List.mem_map, (foldlM_sources run).1]
  simp only [mem_applyAll_iff, List.not_mem_nil, false_and, or_false, and_comm]

end Projects

section References

variable {world : World}

def Qualifies (world : World) (location : String) : Bool :=
  isTargetMetadata location && world.fileExists location

theorem find?_eraseDups (items : List String) (wanted : String → Bool) :
    items.eraseDups.find? wanted = items.find? wanted := by
  induction len : items.length using Nat.strongRecOn generalizing items with
  | ind count ih =>
      cases items with
      | nil => rfl
      | cons item rest =>
          have shorter : (rest.filter fun other => !other == item).length < count := by
            rw [← len, List.length_cons]
            exact Nat.lt_succ_of_le (List.length_filter_le _ _)
          rw [List.eraseDups_cons, List.find?_cons, List.find?_cons, ih _ shorter _ rfl]
          split
          · rfl
          · rename_i rejected
            rw [List.find?_filter]
            congr 1
            funext other
            by_cases same : other = item
            · simp [same, rejected]
            · simp [same]

theorem distinctReference_append_singleton (locations : List String) (last : String) :
    distinctReference world (locations ++ [last]) =
      if world.getFileName last ∈ (distinctReference world locations).map world.getFileName
      then distinctReference world locations
      else distinctReference world locations ++ [last] := by
  simp [distinctReference, List.foldl_append]

theorem mem_distinctReference_iff {locations : List String} {location : String} :
    location ∈ distinctReference world locations ↔
      locations.find? (fun other => world.getFileName other == world.getFileName location) =
        some location := by
  induction locations using List.reverseRecOn generalizing location with
  | nil => simp [distinctReference]
  | append_singleton locations last ih =>
      rw [distinctReference_append_singleton, List.find?_append]
      split
      · rename_i taken
        obtain ⟨first, kept, sameName⟩ := List.mem_map.mp taken
        rw [ih]
        cases found : locations.find? fun other =>
            world.getFileName other == world.getFileName location with
        | some other => simp
        | none =>
            have foreign : world.getFileName last ≠ world.getFileName location := by
              intro same
              have present := ih.mp kept
              rw [sameName, same, found] at present
              cases present
            simp [foreign]
      · rename_i free
        rw [List.mem_append, List.mem_singleton, ih]
        cases found : locations.find? fun other =>
            world.getFileName other == world.getFileName location with
        | some other =>
            have named : world.getFileName other = world.getFileName location := by
              simpa using List.find?_some found
            have kept : other ∈ distinctReference world locations := by
              rw [ih, named, found]
            have notLast : location ≠ last := by
              rintro rfl
              exact free (List.mem_map.mpr ⟨other, kept, named⟩)
            simp [notLast]
        | none =>
            simp only [reduceCtorEq, false_or, Option.none_or, List.find?_singleton, beq_iff_eq]
            constructor
            · rintro rfl
              simp
            · intro chosen
              split at chosen
              · exact (Option.some.inj chosen).symm
              · cases chosen

/-- The references of a compilation: for each file name the first location that exists and
whose path has neither `MonoBleedingEdge` nor `2.0.0` in it, those of the projects first,
and a project's own after those of the projects that it refers to. -/
theorem createFromProject_references {inner : Nat} {standardReferences : List String} {depth : Nat}
    {csprojs sources references : List String}
    (returned : createFromProject world standardReferences inner depth csprojs =
      value (sources, references)) (location : String) :
    location ∈ references ↔
      (((csprojs.flatMap (postorder (projectReferences world) depth)).flatMap
          (locationsOf world inner)).map world.getFullPath ++ standardReferences).find?
        (fun other => Qualifies world other &&
          world.getFileName other == world.getFileName location) = some location := by
  obtain ⟨collected, run, same⟩ := bind_eq_value.mp returned
  cases same
  rw [metadataOf, mem_distinctReference_iff, (foldlM_sources run).2, List.nil_append,
    List.filter_filter, List.find?_filter, find?_eraseDups]
  simp only [Qualifies, Bool.decide_and, Bool.decide_eq_true, Bool.and_comm]

end References

/-! Two projects: `a` refers to `b`, which removes a file of `a` and has a library of its own. -/

def projectA : XNode :=
  .element "Project" [("Sdk", "Microsoft.NET.Sdk")]
    [.element "ProjectReference" [("Include", "..\\b\\b.csproj")] [],
      .element "Reference" [("Include", "Core")] []]

def projectB : XNode :=
  .element "Project" [("Sdk", "Microsoft.NET.Sdk")]
    [.element "Compile" [("Remove", "../a/Old.cs")] [],
      .element "Reference" [("Include", "Core")] [.element "HintPath" [] [.text "lib\\Core.dll"]]]

def joinPath (parts : List String) : String := String.intercalate "/" parts

def resolvePath (path : String) : String :=
  joinPath ((splitText '/' path).foldl (fun parents name =>
    if name = ".." then parents.dropLast else parents ++ [name]) [])

def twoProjects : World where
  load path :=
    if resolvePath path = "/s/a/a.csproj" then .ok projectA
    else if resolvePath path = "/s/b/b.csproj" then .ok projectB
    else .error (.exception "")
  files _ := .ok []
  directories _ := .ok []
  dllFiles _ := .ok []
  directoryExists _ := false
  fileExists path := path = "/s/b/lib/Core.dll" || path = "/fw/Core.dll"
  directoryName path := (splitText '/' path).getLastD ""
  getDirectoryName path := joinPath (splitText '/' path).dropLast
  getFileName path := (splitText '/' path).getLastD ""
  getFullPath := resolvePath
  combine directory name := directory ++ "/" ++ name
  getResultsInFullPath patterns _ root :=
    if resolvePath root = "/s/a" && patterns = ["**/*.cs"] then
      .ok ["/s/a/New.cs", "/s/a/Old.cs"]
    else if resolvePath root = "/s/b" && patterns = ["**/*.cs"] then .ok ["/s/b/B.cs"]
    else if resolvePath root = "/s/b" && patterns = ["../a/Old.cs"] then .ok ["/s/a/Old.cs"]
    else .ok []
  toLower path := path
  trim text := text
  trimDots text := text
  equalsIgnoreCase left right := left = right
  directorySeparator := '/'
  frameworkRoot := "/fw"
  nugetPackagesPath := "/n"

theorem twoProjects_compiled :
    createFromProject twoProjects [] 1 2 ["/s/a/a.csproj"] =
      value (["/s/a/New.cs", "/s/b/B.cs"], ["/s/b/lib/Core.dll"]) := by
  decide +kernel

theorem oldSource_removed :
    ¬∃ file, twoProjects.getFullPath file = "/s/a/Old.cs" ∧
      lastEdit ((["/s/a/a.csproj"].flatMap (preorder (projectReferences twoProjects) 2)).flatMap
        (editsOf twoProjects 1)) file = some (.add file) := by
  rw [← createFromProject_sources twoProjects_compiled "/s/a/Old.cs"]
  decide

theorem ownLibrary_first :
    (((["/s/a/a.csproj"].flatMap (postorder (projectReferences twoProjects) 2)).flatMap
        (locationsOf twoProjects 1)).map twoProjects.getFullPath ++ []).find?
      (fun other => Qualifies twoProjects other &&
        twoProjects.getFileName other == twoProjects.getFileName "/s/b/lib/Core.dll") =
      some "/s/b/lib/Core.dll" :=
  (createFromProject_references twoProjects_compiled "/s/b/lib/Core.dll").mp
    (List.mem_singleton_self _)

example : isTargetMetadata "/n/newtonsoft.json/12.0.0/lib/netstandard2.0/Newtonsoft.Json.dll" = false := by
  decide

/-! A directory with a `bin` and a `lib` in it. -/

def nestedSources : World :=
  { twoProjects with
    files := fun directory => .ok [directory ++ "/A.cs"]
    directories := fun directory =>
      .ok (if directory = "/s" then ["/s/bin", "/s/lib"] else []) }

theorem nestedSources_ends : Acc (fun child parent => Below nestedSources parent child) "/s" := by
  refine Acc.intro _ fun child below => ?_
  have kept : keptDirectories nestedSources "/s" = ["/s/lib"] := by decide +kernel
  rw [Below, kept, List.mem_singleton] at below
  subst below
  refine Acc.intro _ fun child below => ?_
  have nothing : keptDirectories nestedSources "/s/lib" = [] := by decide +kernel
  rw [Below, nothing] at below
  cases below

theorem nestedSources_exact :
    (∃ depth files, iterateCsFileWithoutBinObj nestedSources depth "/s" = value files) ∧
    ∀ file, file ∈ ["/s/A.cs", "/s/lib/A.cs"] ↔
      ∃ directory, ReflTransGen (Below nestedSources) "/s" directory ∧
        ∃ listed, nestedSources.files directory = .ok listed ∧ file ∈ listed := by
  obtain ⟨returns, finds⟩ := iterateCsFile_exact
    fun directory (_ : ReflTransGen (Below nestedSources) "/s" directory) =>
      (⟨⟨_, rfl⟩, _, rfl⟩ : Listable nestedSources directory)
  exact ⟨returns.mpr nestedSources_ends, finds 2 _ (by decide +kernel)⟩

end Stad.PseudoCompilation
