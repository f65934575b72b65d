import Stad.Bounded
import Stad.AnnotationMapping
import Stad.AnalyzerCore
import Stad.AnalyzerRun
import Stad.AnalyzerTotal
import Stad.AnalyzerGrowth
import Stad.AnalyzerCoherence
import Stad.AnalyzerLinks
import Stad.CollectorCore
import Stad.CollectorOutcome
import Stad.CollectorOrder
import Stad.CompilationCore
import Stad.CompilationReachable
import Stad.MemberAttributes
import Stad.JsonText
import Stad.ModelKeyCore
import Stad.ModelKeyRoundTrip
import Stad.Incremental
import Stad.PooledDecoding
import Stad.Loading
import Stad.WordSearch
import Stad.RuntimeTypes
import Stad.DataSetMembers
import Stad.DataSetSplit
import Stad.NameLookup
import Stad.IgnoreMember
import Stad.PathText
import Stad.DataSetPaths
import Stad.SourceAndAssembly
import Stad.AnnotationArguments
import Stad.DataSetIsolation
import Stad.OpeningAssembly
import Stad.RegistryFromProto
import Stad.CollectTermination
import Stad.ServerTermination
import Stad.ModelKeyValue
import Stad.ManifestOrder
import Stad.DirectoryHistory
import Stad.DeclaredDataSets
import Stad.TypeCodeCollisions
import Stad.MemberKinds
import Stad.InheritedMembers
import Stad.ApplicationEvents
import Stad.SettingsInitialization
import Stad.DataSetCache
import Stad.ModelTraversal
import Stad.RegistryTransfer
import Stad.ProjectSources
import Stad.NugetPackages
import Stad.ProjectReading
import Stad.CompilationOutcome
import Stad.SourcePipeline
import Stad.WindowManager
import Stad.Descripters
import Stad.AssemblyPipeline
import Stad.DirectoryLoading
import Stad.OpenedView
