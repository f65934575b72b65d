import Stad.AnalyzerRun
import Stad.CollectorOrder
import Stad.FirstWins

/-!
`MakeRegistry` of an assembly source, from the DLL files to the registry. The process
keeps every assembly that it has loaded, so what a file holds matters only the first
time that an assembly of its identity is loaded.
-/

namespace Stad

open Bounded Bounded.Outcome Relation FirstWins

structure IAssemblySource where
  isAvailable : Bool
  toText : String
  getAssemblyTargetFiles : Except Thrown (List String)

def LocalFileAssemblySource.create (enumerateFiles : String → String → Except Thrown (List String))
    (rootPath : String) : IAssemblySource where
  isAvailable := true
  toText := "Stad.Core.Source.Assembly.LocalFileAssemblySource"
  getAssemblyTargetFiles := enumerateFiles rootPath "*.dll"

/-- What `Assembly.LoadFrom` finds in the DLL files: the identity of an assembly, and the
assembly, if none of that identity is loaded. A loaded one may refuse the file. -/
abbrev AssemblyFiles (ι α : Type) := FirstWins.Source String ι α Thrown

abbrev LoadedAssemblies (ι α : Type) := FirstWins.Table ι α

variable {ι α τ : Type} [DecidableEq ι] [DecidableEq τ]

namespace TypeCollectorForAssembly

variable {graph : TypeGraph τ} {comparer : Comparer}

omit [DecidableEq τ] in
theorem reachable_same {edge : τ → τ → Prop} {targets targets' : List τ}
    (same : ∀ type, type ∈ targets' ↔ type ∈ targets) :
    Reachable edge targets' = Reachable edge targets := by
  funext type
  simp only [Reachable, same]

theorem collects_within {targets targets' : List τ}
    (same : ∀ type, type ∈ targets' ↔ type ∈ targets)
    (told : Told graph comparer (Reachable (Leads graph) targets)) {result : TypeCollectorResult}
    (collects : Collects graph comparer targets result) :
    Collects graph comparer targets' result := by
  obtain ⟨depth, returned⟩ := collects
  obtain ⟨depth', result', returned'⟩ : ∃ depth result,
      collect graph comparer targets' depth = value result := by
    rw [collect_succeeds_iff, reachable_same same]
    exact collect_succeeds_iff.mp ⟨depth, result, returned⟩
  obtain ⟨types, nodup, reached, is⟩ := collect_returned returned
  obtain ⟨types', nodup', reached', is'⟩ := collect_returned returned'
  have permuted : types.Perm types' := by
    rw [List.perm_ext_iff_of_nodup nodup nodup']
    intro type
    rw [reached, reached', reachable_same same]
  rw [is, resultOf_eq told permuted fun type => (reached type).mp, ← is']
  exact ⟨depth', returned'⟩

theorem makesRegistry_same {targets targets' : List τ}
    (same : ∀ type, type ∈ targets' ↔ type ∈ targets)
    (told : Told graph comparer (Reachable (Leads graph) targets))
    (registry : Outcome Thrown StadRegistry) :
    MakesRegistry graph comparer targets' registry ↔
      MakesRegistry graph comparer targets registry := by
  have told' : Told graph comparer (Reachable (Leads graph) targets') := by
    rw [reachable_same same]
    exact told
  constructor
  · rintro ⟨result, collects, made⟩
    exact ⟨result, collects_within (fun type => (same type).symm) told' collects, made⟩
  · rintro ⟨result, collects, made⟩
    exact ⟨result, collects_within same told collects, made⟩

theorem throws_same {targets targets' : List τ} (same : ∀ type, type ∈ targets' ↔ type ∈ targets)
    (finite : {type | Reachable (Leads graph) targets type}.Finite) :
    Throws graph comparer targets' ↔ Throws graph comparer targets := by
  have finite' : {type | Reachable (Leads graph) targets' type}.Finite := by
    rwa [reachable_same same]
  rw [(collect_reachable graph comparer targets finite).2,
    (collect_reachable graph comparer targets' finite').2, reachable_same same]

end TypeCollectorForAssembly

namespace StadAnalyzer

def makeRegistryFromTypes (graph : TypeGraph τ) (comparer : Comparer) (allTypes : List τ)
    (depth : Nat) : Outcome Thrown StadRegistry := do
  let result ← TypeCollectorForAssembly.collect graph comparer allTypes depth
  makeRegistry result depth

def makeRegistryFromAssembly (files : AssemblyFiles ι α) (getTypes : α → Except Thrown (List τ))
    (graph : TypeGraph τ) (comparer : Comparer) (depth : Nat) (loaded : LoadedAssemblies ι α)
    (assemblySource : IAssemblySource) : LoadedAssemblies ι α × Outcome Thrown StadRegistry :=
  if !assemblySource.isAvailable then
    (loaded, error (.exception s!"AssemblySource not initialized : {assemblySource.toText}"))
  else
    match assemblySource.getAssemblyTargetFiles with
    | .error thrown => (loaded, error thrown)
    | .ok assemblyNames =>
      let (loaded, assemblies) := takeAll files loaded assemblyNames
      (loaded, do
        let assemblies ← ofExcept assemblies
        let allTypes ← ofExcept (assemblies.mapM getTypes)
        makeRegistryFromTypes graph comparer allTypes.flatten depth)

variable {files files' : AssemblyFiles ι α} {getTypes : α → Except Thrown (List τ)}
  {graph : TypeGraph τ} {comparer : Comparer} {loaded later : LoadedAssemblies ι α}
  {assemblySource assemblySource' : IAssemblySource} {identities identities' : List ι}
  {assemblies assemblies' : List α}

structure LoadsAll (files : AssemblyFiles ι α) (loaded : LoadedAssemblies ι α)
    (assemblySource : IAssemblySource) (identities : List ι) (assemblies : List α) : Prop where
  available : assemblySource.isAvailable = true
  files : ∃ assemblyNames, assemblySource.getAssemblyTargetFiles = .ok assemblyNames ∧
    assemblyNames.mapM files.key = .ok identities ∧
    (takeAll files loaded assemblyNames).2 = .ok assemblies

/-- What happens to the loaded assemblies while the process goes on. -/
inductive Loading (getTypes : α → Except Thrown (List τ)) (graph : TypeGraph τ)
    (comparer : Comparer) : LoadedAssemblies ι α → LoadedAssemblies ι α → Prop where
  | makeRegistry (files : AssemblyFiles ι α) (depth : Nat) (loaded : LoadedAssemblies ι α)
      (assemblySource : IAssemblySource) : Loading getTypes graph comparer loaded
        (makeRegistryFromAssembly files getTypes graph comparer depth loaded assemblySource).1
  | otherwise (loaded : LoadedAssemblies ι α) (entry : ι × α) :
      Loading getTypes graph comparer loaded (loaded ++ [entry])

def ComesTo (files : AssemblyFiles ι α) (getTypes : α → Except Thrown (List τ))
    (graph : TypeGraph τ) (comparer : Comparer) (loaded : LoadedAssemblies ι α)
    (assemblySource : IAssemblySource) (outcome : Outcome Thrown StadRegistry) : Prop :=
  outcome ≠ exhausted ∧ ∃ depth,
    (makeRegistryFromAssembly files getTypes graph comparer depth loaded assemblySource).2 = outcome

theorem makeRegistryFromAssembly_extends (depth : Nat) : Extends loaded
    (makeRegistryFromAssembly files getTypes graph comparer depth loaded assemblySource).1 := by
  unfold makeRegistryFromAssembly
  split
  · exact Extends.refl loaded
  · split
    · exact Extends.refl loaded
    · exact takeAll_extends _

theorem loading_extends (run : ReflTransGen (Loading getTypes graph comparer) loaded later) :
    Extends loaded later := by
  induction run with
  | refl => exact Extends.refl loaded
  | tail _ step ih =>
      cases step with
      | makeRegistry => exact ih.trans (makeRegistryFromAssembly_extends _)
      | otherwise => exact ih.trans (extends_append _ _)

theorem makeRegistry_agrees {depth deeper : Nat} (le : depth ≤ deeper)
    (result : TypeCollectorResult) :
    Agrees (makeRegistry result depth) (makeRegistry result deeper) :=
  foldlM_agrees (makeRegistryRound_deepening depth deeper le) _ _

theorem makeRegistryFromTypes_iff {targets : List τ} {outcome : Outcome Thrown StadRegistry}
    (decided : outcome ≠ exhausted) :
    (∃ depth, makeRegistryFromTypes graph comparer targets depth = outcome) ↔
      TypeCollectorForAssembly.MakesRegistry graph comparer targets outcome ∨
        ∃ thrown, outcome = error thrown ∧
          ∃ depth, TypeCollectorForAssembly.collect graph comparer targets depth = error thrown := by
  constructor
  · rintro ⟨depth, made⟩
    unfold makeRegistryFromTypes at made
    cases collected : TypeCollectorForAssembly.collect graph comparer targets depth with
    | value result =>
        rw [collected] at made
        exact Or.inl ⟨result, ⟨depth, collected⟩, decided, depth, made⟩
    | error thrown =>
        rw [collected] at made
        exact Or.inr ⟨thrown, made.symm, depth, collected⟩
    | exhausted =>
        rw [collected] at made
        exact absurd made.symm decided
  · rintro (⟨result, ⟨depth, collected⟩, -, depth', made⟩ | ⟨thrown, same, depth, threw⟩)
    · have deepCollected := TypeCollectorForAssembly.collect_agrees
        (Nat.le_max_left depth depth') targets (by rw [collected]; simp)
      have deepMade := makeRegistry_agrees (Nat.le_max_right depth depth') result
        (by rw [made]; exact decided)
      refine ⟨max depth depth', ?_⟩
      rw [makeRegistryFromTypes, deepCollected, collected, value_bind, deepMade, made]
    · exact ⟨depth, by rw [makeRegistryFromTypes, threw, same, error_bind]⟩

theorem LoadsAll.eq (loads : LoadsAll files loaded assemblySource identities assemblies)
    (depth : Nat) :
    (makeRegistryFromAssembly files getTypes graph comparer depth loaded assemblySource).2 = (do
      let allTypes ← ofExcept (assemblies.mapM getTypes)
      makeRegistryFromTypes graph comparer allTypes.flatten depth) := by
  obtain ⟨available, assemblyNames, listed, -, taken⟩ := loads
  unfold makeRegistryFromAssembly
  simp [available, listed, taken]

theorem LoadsAll.again (loads : LoadsAll files loaded assemblySource identities assemblies)
    {depth : Nat} (run : ReflTransGen (Loading getTypes graph comparer)
      (makeRegistryFromAssembly files getTypes graph comparer depth loaded assemblySource).1 later)
    (loads' : LoadsAll files' later assemblySource' identities' assemblies') :
    ∃ last : LoadedAssemblies ι α, identities.map (get last) = assemblies.map some ∧
      identities'.map (get last) = assemblies'.map some := by
  obtain ⟨available, assemblyNames, listed, asked, taken⟩ := loads
  obtain ⟨-, assemblyNames', -, asked', taken'⟩ := loads'
  have kept : (makeRegistryFromAssembly files getTypes graph comparer depth loaded
      assemblySource).1 = (takeAll files loaded assemblyNames).1 := by
    unfold makeRegistryFromAssembly
    simp [available, listed]
  rw [kept] at run
  exact takeAll_again taken asked (loading_extends run) taken' asked'

theorem comesTo_of_types (loads : LoadsAll files loaded assemblySource identities assemblies)
    {allTypes : List (List τ)} (gotten : assemblies.mapM getTypes = .ok allTypes)
    {outcome : Outcome Thrown StadRegistry} (decided : outcome ≠ exhausted) :
    ComesTo files getTypes graph comparer loaded assemblySource outcome ↔
      TypeCollectorForAssembly.MakesRegistry graph comparer allTypes.flatten outcome ∨
        ∃ thrown, outcome = error thrown ∧ ∃ depth,
          TypeCollectorForAssembly.collect graph comparer allTypes.flatten depth = error thrown := by
  rw [← makeRegistryFromTypes_iff decided]
  simp only [ComesTo, loads.eq, gotten, ofExcept_ok, value_bind]
  exact and_iff_right decided

theorem comesTo_value_iff (loads : LoadsAll files loaded assemblySource identities assemblies)
    {allTypes : List (List τ)} (gotten : assemblies.mapM getTypes = .ok allTypes)
    (registry : StadRegistry) :
    ComesTo files getTypes graph comparer loaded assemblySource (value registry) ↔
      TypeCollectorForAssembly.MakesRegistry graph comparer allTypes.flatten (value registry) := by
  rw [comesTo_of_types loads gotten (by simp)]
  simp

theorem comesTo_error_iff (loads : LoadsAll files loaded assemblySource identities assemblies)
    {allTypes : List (List τ)} (gotten : assemblies.mapM getTypes = .ok allTypes) :
    (∃ thrown, ComesTo files getTypes graph comparer loaded assemblySource (error thrown)) ↔
      (∃ thrown, TypeCollectorForAssembly.MakesRegistry graph comparer allTypes.flatten
        (error thrown)) ∨ TypeCollectorForAssembly.Throws graph comparer allTypes.flatten := by
  have each (thrown : Thrown) := @comesTo_of_types _ _ _ _ _ _ _ graph comparer _ _ _ _ loads _
    gotten (error thrown) (by simp)
  simp only [each, exists_or, TypeCollectorForAssembly.Throws, error.injEq, exists_eq_left']
  rw [exists_comm]

theorem comesTo_of_refused (loads : LoadsAll files loaded assemblySource identities assemblies)
    {thrown : Thrown} (refused : assemblies.mapM getTypes = .error thrown)
    {outcome : Outcome Thrown StadRegistry} :
    ComesTo files getTypes graph comparer loaded assemblySource outcome ↔
      outcome = error thrown := by
  simp only [ComesTo, loads.eq, refused, ofExcept_error, error_bind]
  constructor
  · rintro ⟨-, -, same⟩
    exact same.symm
  · rintro rfl
    exact ⟨by simp, 0, rfl⟩

/-- What a call comes to is settled by which assemblies it gets, each by what was loaded first. -/
theorem makeRegistry_loadedOnce
    (loads : LoadsAll files loaded assemblySource identities assemblies) {depth : Nat}
    (run : ReflTransGen (Loading getTypes graph comparer)
      (makeRegistryFromAssembly files getTypes graph comparer depth loaded assemblySource).1 later)
    (loads' : LoadsAll files' later assemblySource' identities' assemblies') :
    (identities' = identities → ∀ depth,
      (makeRegistryFromAssembly files' getTypes graph comparer depth later assemblySource').2 =
        (makeRegistryFromAssembly files getTypes graph comparer depth loaded assemblySource).2) ∧
    ((∀ identity, identity ∈ identities' ↔ identity ∈ identities) →
      (∀ allTypes, assemblies.mapM getTypes = .ok allTypes → TypeCollectorForAssembly.Told graph
        comparer (TypeCollectorForAssembly.Reachable (TypeCollectorForAssembly.Leads graph)
          allTypes.flatten)) →
      (∀ registry, ComesTo files' getTypes graph comparer later assemblySource' (value registry) ↔
        ComesTo files getTypes graph comparer loaded assemblySource (value registry)) ∧
      ((∀ allTypes, assemblies.mapM getTypes = .ok allTypes →
          {type | TypeCollectorForAssembly.Reachable (TypeCollectorForAssembly.Leads graph)
            allTypes.flatten type}.Finite) →
        ((∃ thrown, ComesTo files' getTypes graph comparer later assemblySource' (error thrown)) ↔
          ∃ thrown, ComesTo files getTypes graph comparer loaded assemblySource (error thrown)))) := by
  obtain ⟨last, kept, kept'⟩ := loads.again run loads'
  constructor
  · rintro rfl depth
    rw [loads.eq, loads'.eq, eq_of_keys kept kept']
  · intro same told
    have within (assembly : α) : assembly ∈ assemblies' ↔ assembly ∈ assemblies :=
      ⟨mem_of_keys kept' kept fun identity => (same identity).mp,
        mem_of_keys kept kept' fun identity => (same identity).mpr⟩
    have returns : (∃ allTypes, assemblies'.mapM getTypes = .ok allTypes) ↔
        ∃ allTypes, assemblies.mapM getTypes = .ok allTypes := by
      simp only [mapM_returns_iff, within]
    cases gotten : assemblies.mapM getTypes with
    | error thrown =>
        cases gotten' : assemblies'.mapM getTypes with
        | error thrown' => simp [comesTo_of_refused loads gotten, comesTo_of_refused loads' gotten']
        | ok allTypes' =>
            obtain ⟨allTypes, impossible⟩ := returns.mp ⟨allTypes', gotten'⟩
            rw [gotten] at impossible
            cases impossible
    | ok allTypes =>
        obtain ⟨allTypes', gotten'⟩ := returns.mpr ⟨allTypes, gotten⟩
        have sameTypes (type : τ) : type ∈ allTypes'.flatten ↔ type ∈ allTypes.flatten := by
          simp only [List.mem_flatten, mem_mapM_iff gotten, mem_mapM_iff gotten', within]
        have sameRegistry := TypeCollectorForAssembly.makesRegistry_same sameTypes
          (told allTypes gotten)
        refine ⟨fun registry => ?_, fun finite => ?_⟩
        · rw [comesTo_value_iff loads gotten, comesTo_value_iff loads' gotten']
          exact sameRegistry (value registry)
        · rw [comesTo_error_iff loads gotten, comesTo_error_iff loads' gotten',
            TypeCollectorForAssembly.throws_same sameTypes (finite allTypes rfl)]
          exact or_congr_left (exists_congr fun thrown => sameRegistry (error thrown))

/-! Two assemblies, one with `Sample.Parent` and one with `Sample.Child`, that are rebuilt
without types after they were loaded from `/bin`. -/

open TypeCollectorForAssembly (parentAndChild ordinal)

def built : AssemblyFiles Bool (List Bool) where
  key path := .ok (path = "/bin/App.dll")
  fetch path := .ok [path = "/bin/App.dll"]
  accept _ _ := .ok ()

def rebuilt : AssemblyFiles Bool (List Bool) := { built with fetch := fun _ => .ok [] }

def binSource : IAssemblySource :=
  LocalFileAssemblySource.create (fun _ _ => .ok ["/bin/App.dll", "/bin/Lib.dll"]) "/bin"

def wholeSource : IAssemblySource :=
  LocalFileAssemblySource.create
    (fun _ _ => .ok ["/obj/Lib.dll", "/bin/Lib.dll", "/bin/App.dll"]) "/"

def afterwards : LoadedAssemblies Bool (List Bool) :=
  (makeRegistryFromAssembly rebuilt Except.ok parentAndChild ordinal 0
    (makeRegistryFromAssembly built Except.ok parentAndChild ordinal 0 [] binSource).1
    wholeSource).1

theorem rebuilt_loadedOnce :
    (∀ registry,
      ComesTo rebuilt Except.ok parentAndChild ordinal afterwards wholeSource (value registry) ↔
        ComesTo built Except.ok parentAndChild ordinal [] binSource (value registry)) ∧
    ((∃ thrown,
      ComesTo rebuilt Except.ok parentAndChild ordinal afterwards wholeSource (error thrown)) ↔
        ∃ thrown, ComesTo built Except.ok parentAndChild ordinal [] binSource (error thrown)) := by
  have loads : LoadsAll built [] binSource [true, false] [[true], [false]] :=
    ⟨rfl, ["/bin/App.dll", "/bin/Lib.dll"], rfl, by decide, by decide⟩
  have loads' : LoadsAll rebuilt afterwards wholeSource [false, false, true]
      [[false], [false], [true]] :=
    ⟨rfl, ["/obj/Lib.dll", "/bin/Lib.dll", "/bin/App.dll"], rfl, by decide, by decide⟩
  have run : ReflTransGen (Loading Except.ok parentAndChild ordinal) _ afterwards :=
    .single (.makeRegistry rebuilt 0 _ wholeSource)
  have told (allTypes : List (List Bool))
      (gotten : [[true], [false]].mapM Except.ok = (Except.ok allTypes : Except Thrown _)) :
      TypeCollectorForAssembly.Told parentAndChild ordinal (TypeCollectorForAssembly.Reachable
        (TypeCollectorForAssembly.Leads parentAndChild) allTypes.flatten) := by
    cases gotten
    exact TypeCollectorForAssembly.parentAndChild_told
  have same := (makeRegistry_loadedOnce loads run loads').2 (by decide) told
  exact ⟨same.1, same.2 fun _ _ => Set.toFinite _⟩

end StadAnalyzer

end Stad
