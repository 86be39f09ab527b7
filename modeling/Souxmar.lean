import Souxmar.Ai.AllowList
import Souxmar.Ai.AuditLog
import Souxmar.Ai.BridgeMessages
import Souxmar.Ai.Confirmation
import Souxmar.Ai.CurlRendering
import Souxmar.Ai.DraftContents
import Souxmar.Ai.Pairing
import Souxmar.Ai.SessionBudget
import Souxmar.Ai.StepBudget
import Souxmar.Ai.WirePairing
import Souxmar.Am.Agreement
import Souxmar.Am.ClosedContours
import Souxmar.Am.ClosedVerdict
import Souxmar.Am.Infill
import Souxmar.Am.LayeredTags
import Souxmar.Am.Sweep
import Souxmar.Core.BufferLayout
import Souxmar.Core.BufferSafety
import Souxmar.Core.BulkMesh
import Souxmar.Core.MeshRepresentation
import Souxmar.Core.PvdEntries
import Souxmar.Core.SeriesCache
import Souxmar.Fem.Converged
import Souxmar.Fem.Tractions
import Souxmar.Lib.Inevitable
import Souxmar.Lib.Tally
import Souxmar.OpenFoam.Reproducible
import Souxmar.Pipeline.CacheKey
import Souxmar.Pipeline.CycleReport
import Souxmar.Pipeline.ParallelRefinement
import Souxmar.Pipeline.ReaderAgreement
import Souxmar.Pipeline.RoundTrip
import Souxmar.Pipeline.Sha256Digest
import Souxmar.Pipeline.StageOutputCodec
import Souxmar.Pipeline.Transparency
import Souxmar.Pipeline.Validation
import Souxmar.PluginHost.Capture
import Souxmar.PluginHost.CommandLine
import Souxmar.PluginHost.Deadlock
import Souxmar.PluginHost.Loader
import Souxmar.PluginHost.ManifestAcceptance
import Souxmar.PluginHost.Ownership
import Souxmar.PluginHost.Startup
import Souxmar.Plugins.GridTiling
import Souxmar.Plugins.ObjMesh
import Souxmar.Plugins.StlReader
import Souxmar.Plugins.VtuSaid
import Souxmar.Updater.Atomicity
import Souxmar.Updater.CommandSessions
import Souxmar.Updater.CrashSafety
import Souxmar.Updater.GateDecision
import Souxmar.Updater.LayoutInvariant
import Souxmar.Updater.LogRoundTrip
import Souxmar.Updater.ManifestValidation
import Souxmar.Updater.ReplayFloor
import Souxmar.Updater.ReportedWrites
import Souxmar.Updater.RollbackTargets
import Souxmar.Updater.Timestamps
