import Stad.ProjectSources

/-!
The packages of a project file. Their folders are marked as they are resolved, so
packages that depend on each other do no harm.
-/

namespace Stad.PseudoCompilation

open Bounded Bounded.Outcome KeyedTraversal

variable {world : World}

def directPackages (world : World) (document : XNode) : List (Except Thrown Package) :=
  (document.named "PackageReference").filterMap fun item =>
    (item.getAttribute "Include").map fun included =>
      match item.getAttribute "Version" with
      | none => .error .nullReference
      | some version => .ok ⟨world.toLower (world.trim included), world.trim version⟩

theorem packageReference_visit {document : XNode} {framework : String}
    (target : originalTargetFramework document = .ok framework) (depth : Nat)
    (items : List XNode) (resolvedDllPaths : List String) :
    items.foldlM (packageReference world document depth) resolvedDllPaths =
      (items.filterMap fun item => (item.getAttribute "Include").map fun included =>
        match item.getAttribute "Version" with
        | none => .error .nullReference
        | some version => .ok ⟨world.toLower (world.trim included), world.trim version⟩).foldlM
          (visit (unroll (body (packageGraph world framework)) depth)) resolvedDllPaths := by
  induction items generalizing resolvedDllPaths with
  | nil => rfl
  | cons item rest ih =>
      rw [List.foldlM_cons]
      cases included : item.getAttribute "Include" with
      | none =>
          have skipped : packageReference world document depth resolvedDllPaths item =
              value resolvedDllPaths := by
            simp [packageReference, target, included]
          rw [skipped, value_bind, ih]
          simp [included]
      | some name =>
          rw [List.filterMap_cons_some (by rw [included]; rfl), List.foldlM_cons]
          cases version : item.getAttribute "Version" with
          | none => simp [packageReference, target, included, version, visit]
          | some number =>
              simp only [packageReference, target, included, version, visit, ofExcept_ok, value_bind,
                collectNugetPackages, ih]

def resolvedDllPaths (world : World) (document : XNode) (depth : Nat) :
    Outcome Thrown (List String) :=
  (document.named "PackageReference").foldlM (packageReference world document depth) []

def Needed (world : World) (document : XNode) (framework : String) (package : Package) : Prop :=
  (packageGraph world framework).Reached (directPackages world document) package

theorem libraryFolder_exists {framework : String} {package : Package} {path : String}
    (located : (packageGraph world framework).locate package = some path) :
    world.directoryExists path = true := by
  obtain ⟨⟨targetFramework, folder⟩, found, rfl⟩ := Option.map_eq_some_iff.mp located
  obtain ⟨candidate, _, chosen⟩ := List.exists_of_findSome?_eq_some found
  simp only at chosen
  split at chosen
  · rename_i present
    cases chosen
    exact present
  · cases chosen

def dependsOn (id : String) : XNode :=
  .element "package" [] [.element "dependencies" []
    [.element "group" [("targetFramework", "netstandard2.0")]
      [.element "dependency" [("id", id), ("version", "1.0")] []]]]

def mutualPackages : World :=
  { twoProjects with
    load := fun path =>
      if path = "/n/one/1.0/one.nuspec" then .ok (dependsOn "two")
      else if path = "/n/two/1.0/two.nuspec" then .ok (dependsOn "one")
      else .error (.exception "")
    fileExists := fun path => path ∈ ["/n/one/1.0/one.nuspec", "/n/two/1.0/two.nuspec"]
    directoryExists := fun path => (splitText '/' path).filter (· ≠ "") ∈
      [["n", "one", "1.0"], ["n", "one", "1.0", "lib", "netstandard2.0"],
        ["n", "two", "1.0"], ["n", "two", "1.0", "lib", "netstandard2.0"]] }

def usesOne : XNode :=
  .element "Project" [] [.element "TargetFramework" [] [.text "netstandard2.0"],
    .element "PackageReference" [("Include", "one"), ("Version", "1.0")] []]

def folderOfOne : String := "/n/one/1.0/lib/netstandard2.0"

def folderOfTwo : String := "/n/two/1.0/lib/netstandard2.0"

theorem mutualPackages_needed {package : Package}
    (needed : Needed mutualPackages usesOne "netstandard2.0" package) :
    package = ⟨"one", "1.0"⟩ ∨ package = ⟨"two", "1.0"⟩ := by
  obtain ⟨root, listed, path⟩ := needed
  have direct : directPackages mutualPackages usesOne = [.ok ⟨"one", "1.0"⟩] := by decide +kernel
  induction path with
  | refl =>
      rw [direct, List.mem_singleton] at listed
      exact Or.inl (Except.ok.inj listed)
  | tail _ edge ih =>
      obtain ⟨_, child⟩ := edge
      rcases ih with rfl | rfl
      · have dependencies : (packageGraph mutualPackages "netstandard2.0").children
            ⟨"one", "1.0"⟩ = [.ok ⟨"two", "1.0"⟩] := by decide +kernel
        rw [dependencies, List.mem_singleton] at child
        exact Or.inr (Except.ok.inj child)
      · have dependencies : (packageGraph mutualPackages "netstandard2.0").children
            ⟨"two", "1.0"⟩ = [.ok ⟨"one", "1.0"⟩] := by decide +kernel
        rw [dependencies, List.mem_singleton] at child
        exact Or.inl (Except.ok.inj child)

theorem mutualPackages_located {package : Package} {path : String}
    (needed : Needed mutualPackages usesOne "netstandard2.0" package)
    (located : (packageGraph mutualPackages "netstandard2.0").locate package = some path) :
    path ∈ ({folderOfOne, folderOfTwo} : Finset String) := by
  rw [Finset.mem_insert, Finset.mem_singleton]
  rcases mutualPackages_needed needed with rfl | rfl
  · have here : (packageGraph mutualPackages "netstandard2.0").locate ⟨"one", "1.0"⟩ =
        some folderOfOne := by decide +kernel
    exact Or.inl (Option.some.inj (located.symm.trans here))
  · have here : (packageGraph mutualPackages "netstandard2.0").locate ⟨"two", "1.0"⟩ =
        some folderOfTwo := by decide +kernel
    exact Or.inr (Option.some.inj (located.symm.trans here))

end Stad.PseudoCompilation
