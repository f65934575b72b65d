import Stad.NugetPackages
import Stad.Reachability

/-!
Which project files can be collected: those that can be read, as can all that they refer
to, without a cycle.
-/

namespace Stad.PseudoCompilation

open Bounded Bounded.Outcome TreeWalk Relation SetEdits

variable {world : World}

/-! The shared sources. -/

structure Searchable (world : World) (root : String) : Prop where
  listable : ∀ directory, ReflTransGen (Below world) root directory → Listable world directory
  ends : Acc (fun child parent => Below world parent child) root

theorem listable_of_enters {directory : String}
    (entered : ∃ yielded next, (csFileWalker world).enter directory yielded = value next) :
    Listable world directory := by
  obtain ⟨yielded, next, entered⟩ := entered
  obtain ⟨files, listed, entered⟩ := bind_eq_value.mp entered
  obtain ⟨directories, below, _⟩ := bind_eq_value.mp entered
  exact ⟨⟨files, ofExcept_eq_value.mp listed⟩, directories, ofExcept_eq_value.mp below⟩

theorem iterateCsFile_returns_iff (root : String) :
    (∃ depth files, iterateCsFileWithoutBinObj world depth root = value files) ↔
      Searchable world root := by
  constructor
  · rintro ⟨depth, files, returned⟩
    refine ⟨fun directory path => listable_of_enters ?_, walk_acc csFileWalker_performs returned⟩
    exact (walk_visits csFileWalker_performs returned path).1
  · rintro ⟨listable, ends⟩
    exact (walk_returns_iff csFileWalker_performs
      (fun other path => csFileWalker_sound (listable other path)) []).mpr ends

theorem iterateCsFile_agrees {depth deeper : Nat} (le : depth ≤ deeper) (root : String) :
    Agrees (iterateCsFileWithoutBinObj world depth root)
      (iterateCsFileWithoutBinObj world deeper root) :=
  unroll_agrees (Walker.body_continuous _) le (root, [])

def SharedSearchable (world : World) (csProjRoot : String) (item : XNode) : Prop :=
  item.getAttribute "Label" = some "Shared" →
    ∃ project, item.getAttribute "Project" = some project ∧
      Searchable world (world.getDirectoryName (world.getFullPath
        (world.combine csProjRoot (normalizeDirectorySeparators world project))))

theorem sharedEdits_returns_iff (csProjRoot : String) (edits : List (Edit String)) (item : XNode) :
    (∃ depth next, sharedEdits world depth csProjRoot edits item = value next) ↔
      SharedSearchable world csProjRoot item := by
  unfold sharedEdits SharedSearchable
  by_cases shared : item.getAttribute "Label" = some "Shared"
  · cases named : item.getAttribute "Project" with
    | none => simp [shared]
    | some project => simp [shared, bind_eq_value, ← iterateCsFile_returns_iff]
  · simp [shared]

theorem sharedEdits_deepening (csProjRoot : String) :
    Deepening fun depth => sharedEdits world depth csProjRoot := by
  intro depth deeper le edits item
  refine Agrees.ite ?_ (Agrees.refl _)
  split
  · exact Agrees.refl _
  · exact Agrees.bind (iterateCsFile_agrees le _) fun _ => Agrees.refl _

/-! What is read of one project file. -/

structure ReadsAs (world : World) (csproj : String) (document : XNode) : Prop where
  loaded : world.load csproj = .ok document
  patterns : ∃ legacy, legacyFormat document = .ok legacy ∧ ∃ edits,
    compileEdits world document legacy (world.getDirectoryName csproj) = .ok edits
  shared : ∀ item ∈ document.named "Import",
    SharedSearchable world (world.getDirectoryName csproj) item
  references : ∃ locations, (document.named "Reference").mapM
    (referenceLocation world (world.getDirectoryName csproj)) = .ok locations
  packages : ∃ depth paths, resolvedDllPaths world document depth = value paths ∧ ∃ dlls,
    paths.mapM world.dllFiles = .ok dlls

def Readable (world : World) (csproj : String) : Prop := ∃ document, ReadsAs world csproj document

theorem projectEdits_agrees {inner more : Nat} (le : inner ≤ more) (csproj : String) :
    Agrees (projectEdits world inner csproj) (projectEdits world more csproj) := by
  refine Agrees.bind (Agrees.refl _) fun document => ?_
  refine Agrees.bind (Agrees.refl _) fun legacy => ?_
  refine Agrees.bind (Agrees.refl _) fun edits => ?_
  exact foldlM_agrees (sharedEdits_deepening _ inner more le) _ edits

theorem packageReference_deepening (document : XNode) :
    Deepening fun depth => packageReference world document depth := by
  intro depth deeper le paths item
  refine Agrees.bind (Agrees.refl _) fun framework => ?_
  split
  · exact Agrees.refl _
  · split
    · exact Agrees.refl _
    · exact unroll_agrees (KeyedTraversal.body_continuous _) le _

theorem resolvedDllPaths_agrees {inner more : Nat} (le : inner ≤ more) (document : XNode) :
    Agrees (resolvedDllPaths world document inner) (resolvedDllPaths world document more) :=
  foldlM_agrees (packageReference_deepening document inner more le) _ []

theorem projectLocations_agrees {inner more : Nat} (le : inner ≤ more) (csproj : String) :
    Agrees (projectLocations world inner csproj) (projectLocations world more csproj) := by
  refine Agrees.bind (Agrees.refl _) fun document => ?_
  refine Agrees.bind (Agrees.refl _) fun references => ?_
  exact Agrees.bind (resolvedDllPaths_agrees le document) fun _ => Agrees.refl _

def ReadsWith (world : World) (inner : Nat) (csproj : String) : Prop :=
  (∃ edits, projectEdits world inner csproj = value edits) ∧
    ∃ locations, projectLocations world inner csproj = value locations

theorem ReadsWith.mono (inner more : Nat) (csproj : String) (le : inner ≤ more)
    (reads : ReadsWith world inner csproj) : ReadsWith world more csproj := by
  obtain ⟨⟨edits, entered⟩, locations, left⟩ := reads
  exact ⟨⟨edits, (projectEdits_agrees le csproj).value entered⟩,
    locations, (projectLocations_agrees le csproj).value left⟩

theorem readable_iff (csproj : String) :
    Readable world csproj ↔ ∃ inner, ReadsWith world inner csproj := by
  constructor
  · rintro ⟨document, reads⟩
    obtain ⟨legacy, format, edits, compiled⟩ := reads.patterns
    obtain ⟨references, located⟩ := reads.references
    obtain ⟨depth, paths, resolved, dlls, listed⟩ := reads.packages
    obtain ⟨shallow, all, imported⟩ := (foldlM_value_iff (sharedEdits_deepening _)
      (sharedEdits_returns_iff (world.getDirectoryName csproj)) edits).mpr reads.shared
    have entered : projectEdits world shallow csproj = value all := by
      simp [projectEdits, reads.loaded, format, compiled, imported]
    have left : projectLocations world depth csproj =
        value (references ++ dlls.flatten.map world.getFullPath) := by
      unfold resolvedDllPaths at resolved
      simp [projectLocations, reads.loaded, located, resolved, listed]
    exact ⟨max shallow depth,
      ⟨all, (projectEdits_agrees (Nat.le_max_left _ _) csproj).value entered⟩,
      _, (projectLocations_agrees (Nat.le_max_right _ _) csproj).value left⟩
  · rintro ⟨inner, ⟨all, entered⟩, locations, left⟩
    obtain ⟨document, loaded, entered⟩ := bind_eq_value.mp entered
    obtain ⟨legacy, format, entered⟩ := bind_eq_value.mp entered
    obtain ⟨edits, compiled, imported⟩ := bind_eq_value.mp entered
    obtain ⟨again, reloaded, left⟩ := bind_eq_value.mp left
    obtain rfl : again = document := value.inj (reloaded.symm.trans loaded)
    obtain ⟨references, located, left⟩ := bind_eq_value.mp left
    obtain ⟨paths, resolved, left⟩ := bind_eq_value.mp left
    obtain ⟨dlls, listed, _⟩ := bind_eq_value.mp left
    refine ⟨again, ofExcept_eq_value.mp loaded,
      ⟨legacy, ofExcept_eq_value.mp format, edits, ofExcept_eq_value.mp compiled⟩, ?_,
      ⟨references, ofExcept_eq_value.mp located⟩,
      inner, paths, resolved, dlls, ofExcept_eq_value.mp listed⟩
    exact (foldlM_value_iff (sharedEdits_deepening _)
      (sharedEdits_returns_iff (world.getDirectoryName csproj)) edits).mp ⟨inner, all, imported⟩

/-! The project files that it refers to. -/

def Refers (world : World) (project reference : String) : Prop :=
  reference ∈ projectReferences world project

theorem projectWalker_sound {inner : Nat} {csproj : String}
    (reads : ReadsWith world inner csproj) : Sound (projectWalker world inner) csproj := by
  obtain ⟨⟨edits, enter⟩, locations, leave⟩ := reads
  constructor
  · intro collected
    exact ⟨_, bind_eq_value.mpr ⟨edits, enter, rfl⟩⟩
  · intro collected
    exact ⟨_, bind_eq_value.mpr ⟨locations, leave, rfl⟩⟩

theorem collectDocument_reads {inner depth : Nat} {csproj other : String}
    {collected last : Collected}
    (returned : collectDocument world inner depth csproj collected = value last)
    (reached : ReflTransGen (Refers world) csproj other) : ReadsWith world inner other := by
  obtain ⟨⟨before, _, entered⟩, after, _, left⟩ :=
    walk_visits projectWalker_performs returned reached
  obtain ⟨edits, read, _⟩ := bind_eq_value.mp entered
  obtain ⟨locations, located, _⟩ := bind_eq_value.mp left
  exact ⟨⟨edits, read⟩, locations, located⟩

theorem collectDocument_returns_of_acc {csproj : String}
    (readable : ∀ other, ReflTransGen (Refers world) csproj other → Readable world other)
    (ends : Acc (fun reference project => Refers world project reference) csproj)
    (collected : Collected) :
    ∃ inner depth last, collectDocument world inner depth csproj collected = value last := by
  obtain ⟨inner, reads⟩ := exists_common_of_acc ReadsWith.mono ends
    fun other path => (readable_iff other).mp (readable other path)
  exact ⟨inner, (walk_returns_iff projectWalker_performs
    (fun other path => projectWalker_sound (reads other path)) collected).mpr ends⟩

/-- Collecting a project returns exactly when it and the project files that it reaches can be
read and have no cycle, however their paths are written. -/
theorem collectDocument_returns_iff {ι : Type} (identity : String → ι) (targets : ι → List ι)
    (files : List ι) (inside : ∀ source, ∀ target ∈ targets source, target ∈ files)
    {csproj : String}
    (resolves : ∀ other, ReflTransGen (Refers world) csproj other →
      (projectReferences world other).map identity = targets (identity other))
    (collected : Collected) :
    (∃ inner depth last, collectDocument world inner depth csproj collected = value last) ↔
      (∀ other, ReflTransGen (Refers world) csproj other → Readable world other) ∧
        ¬Reachability.Lasso (fun source target => target ∈ targets source) (identity csproj) := by
  have mapped := acc_iff_of_map identity resolves
  constructor
  · rintro ⟨inner, depth, last, returned⟩
    refine ⟨fun other path => (readable_iff other).mpr ⟨inner, ?_⟩, ?_⟩
    · exact collectDocument_reads returned path
    · exact Reachability.not_lasso_of_acc (mapped.mp (walk_acc projectWalker_performs returned))
  · rintro ⟨readable, free⟩
    have ends := mapped.mpr (Reachability.acc_of_not_lasso files inside free)
    exact collectDocument_returns_of_acc readable ends collected

/-! The two projects can be collected; two that refer to each other cannot. -/

def circularProjects : World :=
  { twoProjects with
    load := fun path =>
      if path = "/s/a/a.csproj" then .ok (.element "Project" []
        [.element "ProjectReference" [("Include", "/s/b/b.csproj")] []])
      else if path = "/s/b/b.csproj" then .ok (.element "Project" []
        [.element "ProjectReference" [("Include", "/s/a/a.csproj")] []])
      else .error (.exception "")
    combine := fun directory name => if startsWith name "/" then name else directory ++ "/" ++ name }

def referencesOfTwo (csproj : String) : List String :=
  if csproj = "/s/a/a.csproj" then ["/s/a/../b/b.csproj"] else []

def referencesOfCircular (csproj : String) : List String :=
  if csproj = "/s/a/a.csproj" then ["/s/b/b.csproj"]
  else if csproj = "/s/b/b.csproj" then ["/s/a/a.csproj"] else []

theorem twoProjects_reached {other : String}
    (reached : ReflTransGen (Refers twoProjects) "/s/a/a.csproj" other) :
    other = "/s/a/a.csproj" ∨ other = "/s/a/../b/b.csproj" := by
  induction reached with
  | refl => exact Or.inl rfl
  | tail _ refers ih =>
      rcases ih with rfl | rfl
      · have references : projectReferences twoProjects "/s/a/a.csproj" =
            ["/s/a/../b/b.csproj"] := by decide +kernel
        rw [Refers, references, List.mem_singleton] at refers
        exact Or.inr refers
      · have references : projectReferences twoProjects "/s/a/../b/b.csproj" = [] := by
          decide +kernel
        rw [Refers, references] at refers
        cases refers

theorem circularProjects_reached {other : String}
    (reached : ReflTransGen (Refers circularProjects) "/s/a/a.csproj" other) :
    other = "/s/a/a.csproj" ∨ other = "/s/b/b.csproj" := by
  induction reached with
  | refl => exact Or.inl rfl
  | tail _ refers ih =>
      rcases ih with rfl | rfl
      · have references : projectReferences circularProjects "/s/a/a.csproj" =
            ["/s/b/b.csproj"] := by decide +kernel
        rw [Refers, references, List.mem_singleton] at refers
        exact Or.inr refers
      · have references : projectReferences circularProjects "/s/b/b.csproj" =
            ["/s/a/a.csproj"] := by decide +kernel
        rw [Refers, references, List.mem_singleton] at refers
        exact Or.inl refers

theorem twoProjects_readable {other : String}
    (reached : ReflTransGen (Refers twoProjects) "/s/a/a.csproj" other) :
    Readable twoProjects other := by
  rw [readable_iff]
  rcases twoProjects_reached reached with rfl | rfl
  · exact ⟨0, ⟨[.add "/s/a/New.cs", .add "/s/a/Old.cs"], by decide +kernel⟩,
      ["/fw/Core.dll"], by decide +kernel⟩
  · exact ⟨0, ⟨[.add "/s/b/B.cs", .remove "/s/a/Old.cs"], by decide +kernel⟩,
      ["/s/a/../b/lib/Core.dll"], by decide +kernel⟩

theorem twoProjects_collected :
    (∃ inner depth last,
      collectDocument twoProjects inner depth "/s/a/a.csproj" ⟨[], []⟩ = value last) ∧
    ¬∃ inner depth last,
      collectDocument circularProjects inner depth "/s/a/a.csproj" ⟨[], []⟩ = value last := by
  constructor
  · refine (collectDocument_returns_iff id referencesOfTwo ["/s/a/../b/b.csproj"] ?_ ?_ _).mpr
      ⟨fun _ => twoProjects_readable, ?_⟩
    · intro source target listed
      unfold referencesOfTwo at listed
      split at listed
      · exact listed
      · cases listed
    · intro other reached
      rcases twoProjects_reached reached with rfl | rfl <;> decide +kernel
    · refine Reachability.not_lasso_of_acyclic (Reachability.acyclic_of_rank
        (fun csproj => if csproj = "/s/a/a.csproj" then 1 else 0) ?_) _
      intro source target listed
      unfold referencesOfTwo at listed
      split at listed
      · rename_i isFirst
        rw [List.mem_singleton.mp listed, isFirst]
        decide
      · cases listed
  · rw [collectDocument_returns_iff id referencesOfCircular ["/s/a/a.csproj", "/s/b/b.csproj"]]
    · rintro ⟨_, free⟩
      have there : "/s/b/b.csproj" ∈ referencesOfCircular "/s/a/a.csproj" := by decide
      have back : "/s/a/a.csproj" ∈ referencesOfCircular "/s/b/b.csproj" := by decide
      exact free ⟨_, .refl, .tail (.single there) back⟩
    · intro source target listed
      unfold referencesOfCircular at listed
      split at listed
      · exact List.mem_cons_of_mem _ listed
      · split at listed
        · exact List.mem_cons.mpr (Or.inl (List.mem_singleton.mp listed))
        · cases listed
    · intro other reached
      rcases circularProjects_reached reached with rfl | rfl <;> decide +kernel

end Stad.PseudoCompilation
