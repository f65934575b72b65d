import Stad.AnnotationCore
import Stad.KeyedTraversal
import Stad.SetEdits
import Stad.TreeWalk

/-!
Executable model of `PseudoCompilation`, which gathers the source files and the
references of a compilation from a directory or from project files. `World` is what the
file system, the document loader and the pattern matcher answer.
-/

namespace Stad

open Bounded Bounded.Outcome SetEdits

/-! Text, letter by letter. -/

def replaceLetters (old new : List Char) : Nat → List Char → List Char
  | 0, text => text
  | _, [] => []
  | fuel + 1, letter :: rest =>
      if old.isPrefixOf (letter :: rest) then
        new ++ replaceLetters old new fuel ((letter :: rest).drop old.length)
      else letter :: replaceLetters old new fuel rest

def replaceText (text old new : String) : String :=
  String.ofList (replaceLetters old.toList new.toList text.length text.toList)

def splitText (separator : Char) (text : String) : List String :=
  (text.toList.splitOn separator).map String.ofList

def startsWith (text start : String) : Bool := start.toList.isPrefixOf text.toList

inductive XNode where
  | text (value : String)
  | element (name : String) (attributes : List (String × String)) (nodes : List XNode)

namespace XNode

mutual

def value : XNode → String
  | .text value => value
  | .element _ _ nodes => valueOf nodes

def valueOf : List XNode → String
  | [] => ""
  | node :: rest => node.value ++ valueOf rest

end

mutual

def descendantsAndSelf : XNode → List XNode
  | .text _ => []
  | .element name attributes nodes => .element name attributes nodes :: descendants nodes

def descendants : List XNode → List XNode
  | [] => []
  | node :: rest => node.descendantsAndSelf ++ descendants rest

end

def isNamed (wanted : String) : XNode → Bool
  | .text _ => false
  | .element name _ _ => name == wanted

def attributes : XNode → List (String × String)
  | .text _ => []
  | .element _ attributes _ => attributes

def nodes : XNode → List XNode
  | .text _ => []
  | .element _ _ nodes => nodes

def getAttribute (node : XNode) (name : String) : Option String :=
  (node.attributes.find? fun pair => pair.1 == name).map Prod.snd

/-- `XDocument.Descendants`: the root element is one of them. -/
def named (document : XNode) (name : String) : List XNode :=
  document.descendantsAndSelf.filter (isNamed name)

end XNode

structure World where
  load : String → Except Thrown XNode
  files : String → Except Thrown (List String)
  directories : String → Except Thrown (List String)
  dllFiles : String → Except Thrown (List String)
  directoryExists : String → Bool
  fileExists : String → Bool
  directoryName : String → String
  getDirectoryName : String → String
  getFileName : String → String
  getFullPath : String → String
  combine : String → String → String
  getResultsInFullPath : List String → List String → String → Except Thrown (List String)
  toLower : String → String
  trim : String → String
  trimDots : String → String
  equalsIgnoreCase : String → String → Bool
  directorySeparator : Char
  frameworkRoot : String
  nugetPackagesPath : String

namespace PseudoCompilation

variable (world : World)

/-! The source files below a directory. -/

def isBinOrObj (directory : String) : Bool :=
  world.directoryName directory == "bin" || world.directoryName directory == "obj"

def csFileWalker : TreeWalk.Walker Thrown String (List String) where
  enter root yielded := do
    let files ← ofExcept (world.files root)
    let directories ← ofExcept (world.directories root)
    return (yielded ++ files, directories.filter fun directory => !isBinOrObj world directory)
  leave _ yielded := return yielded

def iterateCsFileWithoutBinObj (depth : Nat) (root : String) : Outcome Thrown (List String) :=
  (csFileWalker world).walk depth root []

/-! What a project file asks for. -/

def normalizeDirectorySeparators (path : String) : String :=
  (path.map fun letter => if letter = '\\' then world.directorySeparator else letter).map
    fun letter => if letter = '/' then world.directorySeparator else letter

def getCompileFullPaths (compile : Option XNode) (includeOrRemovePattern csProjRoot : String) :
    Except Thrown (List String) :=
  let csProjRoot := if csProjRoot = "" then "./" else csProjRoot
  let pattern := replaceText (replaceText includeOrRemovePattern "$(ProjectDir)" csProjRoot)
    "$(MSBuildProjectDirectory)" csProjRoot
  let exclude := (compile.bind (·.getAttribute "Exclude")).elim [] (splitText ';')
  world.getResultsInFullPath (splitText ';' pattern) exclude csProjRoot

def disabled (document : XNode) (name : String) : Bool :=
  (document.named name).head?.any fun item => item.value == "false"

def legacyFormat (document : XNode) : Except Thrown Bool :=
  if document.isNamed "Project" then
    return !((document.getAttribute "Sdk").any (startsWith · "Microsoft.NET.Sdk")) ||
      (disabled document "EnableDefaultCompileItems" || disabled document "EnableDefaultItems")
  else throw .nullReference

def patternEdits (compile : Option XNode) (csProjRoot : String) (change : String → Edit String)
    (pattern : String) : Except Thrown (List (Edit String)) := do
  return (← getCompileFullPaths world compile pattern csProjRoot).map change

def compileItemEdits (csProjRoot : String) (item : XNode) : Except Thrown (List (Edit String)) := do
  let added ← (item.getAttribute "Include").elim (pure [])
    (patternEdits world (some item) csProjRoot .add)
  let removed ← (item.getAttribute "Remove").elim (pure [])
    (patternEdits world (some item) csProjRoot .remove)
  return added ++ removed

def compileEdits (document : XNode) (legacy : Bool) (csProjRoot : String) :
    Except Thrown (List (Edit String)) := do
  let added ← if legacy then pure [] else patternEdits world none csProjRoot .add "**/*.cs"
  let items ← (document.named "Compile").mapM (compileItemEdits world csProjRoot)
  let removed ← if legacy then pure []
    else patternEdits world none csProjRoot .remove "./bin/**;./obj/**"
  return added ++ items.flatten ++ removed

def sharedEdits (depth : Nat) (csProjRoot : String) (edits : List (Edit String)) (item : XNode) :
    Outcome Thrown (List (Edit String)) :=
  if item.getAttribute "Label" = some "Shared" then
    match item.getAttribute "Project" with
    | none => error .nullReference
    | some project => do
        let sharedRoot := world.getFullPath
          (world.combine csProjRoot (normalizeDirectorySeparators world project))
        let files ← iterateCsFileWithoutBinObj world depth (world.getDirectoryName sharedRoot)
        return edits ++ files.map .add
  else return edits

def projectEdits (depth : Nat) (csproj : String) : Outcome Thrown (List (Edit String)) := do
  let document ← ofExcept (world.load csproj)
  let csProjRoot := world.getDirectoryName csproj
  let legacy ← ofExcept (legacyFormat document)
  let edits ← ofExcept (compileEdits world document legacy csProjRoot)
  (document.named "Import").foldlM (sharedEdits world depth csProjRoot) edits

def projectReferences (csproj : String) : List String :=
  match world.load csproj with
  | .error _ => []
  | .ok document => ((document.named "ProjectReference").filterMap (·.getAttribute "Include")).map
      fun refCsProjPath => world.combine (world.getDirectoryName csproj)
        (normalizeDirectorySeparators world refCsProjPath)

def referenceLocation (csProjRoot : String) (item : XNode) : Except Thrown String :=
  match (item.nodes.find? (XNode.isNamed "HintPath")).map XNode.value with
  | some hintPath =>
      return world.combine csProjRoot (normalizeDirectorySeparators world hintPath)
  | none =>
      match item.getAttribute "Include" with
      | none => throw .nullReference
      | some included => return world.combine world.frameworkRoot (included ++ ".dll")

/-! Packages, and the packages that they depend on. -/

structure Package where
  id : String
  version : String
  deriving DecidableEq, Repr

def netstandardFallBack (originalTargetFramework : String) : List String :=
  [originalTargetFramework] ++
    (if contains originalTargetFramework "netcoreapp" then
      ["netcoreapp3.1", "netcoreapp3.0", "netcoreapp2.1", "netcoreapp2.0"] else []) ++
    ["netstandard2.1", "netstandard2.0", "netstandard1.6"]

def orLower (path : String) : String :=
  if world.directoryExists path then path else world.toLower path

def libraryFolder (originalTargetFramework : String) (package : Package) :
    Option (String × String) :=
  (netstandardFallBack originalTargetFramework).findSome? fun targetFramework =>
    let path := orLower world (world.combine (world.combine (world.combine
      (world.combine world.nugetPackagesPath package.id) package.version) "lib") targetFramework)
    if world.directoryExists path then some (targetFramework, path) else none

def dependencyOf (item : XNode) : Except Thrown Package :=
  match item.getAttribute "id", item.getAttribute "version" with
  | some id, some version => return ⟨id, version⟩
  | _, _ => throw .nullReference

def dependencyGroups (dependencies : XNode) (targetFramework : String) : List XNode :=
  dependencies.nodes.filter fun item => item.isNamed "group" &&
    item.attributes.any fun pair => pair.1 == "targetFramework" &&
      world.equalsIgnoreCase (world.trimDots pair.2) targetFramework

/-- The dependencies come one by one, so a broken one is met when its turn comes. The first
framework of the first list that has a group ends the search. -/
def resolveNuGetDependency (package : Package) (targetFramework : String) :
    List (Except Thrown Package) :=
  let dirPath := orLower world
    (world.combine (world.combine world.nugetPackagesPath package.id) package.version)
  let filePath := world.combine dirPath (world.toLower package.id ++ ".nuspec")
  if world.fileExists filePath then
    match world.load filePath with
    | .error thrown => [.error thrown]
    | .ok document =>
        ((document.named "dependencies").findSome? fun dependencies =>
          (netstandardFallBack targetFramework).findSome? fun targetFramework =>
            (dependencyGroups world dependencies targetFramework).head?).elim [] fun group =>
              ((XNode.descendants group.nodes).filter (XNode.isNamed "dependency")).map dependencyOf
  else []

def packageGraph (originalTargetFramework : String) :
    KeyedTraversal.Graph Thrown Package String where
  locate package := (libraryFolder world originalTargetFramework package).map Prod.snd
  children package :=
    (libraryFolder world originalTargetFramework package).elim [] fun found =>
      resolveNuGetDependency world package found.1

def collectNugetPackages (originalTargetFramework : String) (depth : Nat) (package : Package)
    (resolvedDllPaths : List String) : Outcome Thrown (List String) :=
  unroll (KeyedTraversal.body (packageGraph world originalTargetFramework)) depth
    (package, resolvedDllPaths)

def originalTargetFramework (document : XNode) : Except Thrown String :=
  match (document.named "TargetFramework").head? with
  | some item => return item.value
  | none =>
      match (document.named "TargetFrameworks").head? with
      | some item => return (splitText ';' item.value).headD ""
      | none => throw .invalidOperation

def packageReference (document : XNode) (depth : Nat) (resolvedDllPaths : List String)
    (item : XNode) : Outcome Thrown (List String) := do
  let originalTargetFramework ← ofExcept (originalTargetFramework document)
  match item.getAttribute "Include" with
  | none => return resolvedDllPaths
  | some included =>
      match item.getAttribute "Version" with
      | none => error .nullReference
      | some version =>
          collectNugetPackages world originalTargetFramework depth
            ⟨world.toLower (world.trim included), world.trim version⟩ resolvedDllPaths

def projectLocations (depth : Nat) (csproj : String) : Outcome Thrown (List String) := do
  let document ← ofExcept (world.load csproj)
  let references ← ofExcept
    ((document.named "Reference").mapM (referenceLocation world (world.getDirectoryName csproj)))
  let resolvedDllPaths ← (document.named "PackageReference").foldlM
    (packageReference world document depth) []
  let dlls ← ofExcept (resolvedDllPaths.mapM world.dllFiles)
  return references ++ dlls.flatten.map world.getFullPath

structure Collected where
  source : List String
  metadataLocations : List String
  deriving DecidableEq, Repr

/-- The sources change before the referenced projects are collected, the locations after. -/
def projectWalker (inner : Nat) : TreeWalk.Walker Thrown String Collected where
  enter csproj collected := do
    let edits ← projectEdits world inner csproj
    return ({ collected with source := applyAll collected.source edits },
      projectReferences world csproj)
  leave csproj collected := do
    let locations ← projectLocations world inner csproj
    return { collected with metadataLocations := collected.metadataLocations ++ locations }

def collectDocument (inner depth : Nat) (csproj : String) (collected : Collected) :
    Outcome Thrown Collected :=
  (projectWalker world inner).walk depth csproj collected

/-! The compilation of some projects. -/

def isTargetMetadata (location : String) : Bool :=
  !(contains location "MonoBleedingEdge" || contains location "2.0.0")

def distinctReference (metadataReferences : List String) : List String :=
  metadataReferences.foldl (fun yielded item =>
    if world.getFileName item ∈ yielded.map world.getFileName then yielded
    else yielded ++ [item]) []

def metadataOf (standardReferences locations : List String) : List String :=
  distinctReference world
    ((((locations.map world.getFullPath ++ standardReferences).eraseDups).filter
      isTargetMetadata).filter world.fileExists)

def createFromProject (standardReferences : List String) (inner depth : Nat)
    (csprojs : List String) : Outcome Thrown (List String × List String) := do
  let collected ← csprojs.foldlM
    (fun collected csproj => collectDocument world inner depth csproj collected) ⟨[], []⟩
  return ((collected.source.map world.getFullPath).eraseDups,
    metadataOf world standardReferences collected.metadataLocations)

def createFromDirectory (standardReferences : List String) (depth : Nat) (directoryRoot : String) :
    Outcome Thrown (List String × List String) := do
  let files ← iterateCsFileWithoutBinObj world depth directoryRoot
  return (files, distinctReference world standardReferences)

end PseudoCompilation

end Stad
