import McapCatalog.WorkerRuns
import McapCatalog.Convergence
import McapCatalog.Failures
import McapCatalog.Discovery
import McapCatalog.Debounce
import McapCatalog.PendingEdits
import McapCatalog.EditReplies
import McapCatalog.EffectiveTags
import McapCatalog.WriterLock
import McapCatalog.Provenance
import McapCatalog.FileIds
import McapCatalog.TopicSets
import McapCatalog.Coherence
import McapCatalog.Placement
import McapCatalog.RebuiltKeys
import McapCatalog.Ownership
import McapCatalog.PathsAgree
import McapCatalog.Exits
import McapCatalog.CoherentRuns
import McapCatalog.Sightings
import McapCatalog.SilentLoss
import McapCatalog.StaleFailures
import McapCatalog.Isolation
import McapCatalog.WarmReconcile
import McapCatalog.Vanishing
import McapCatalog.VarintCodec
import McapCatalog.KeyGrammar
import McapCatalog.RangeReaders
import McapCatalog.Registrations
import McapCatalog.Removals
import McapCatalog.Notifications
import McapCatalog.TagRequests
import McapCatalog.BuildIds
import McapCatalog.OpenDb
import McapCatalog.SidecarWindow
import McapCatalog.CarryForward
import McapCatalog.EventPath
import McapCatalog.Retry
import McapCatalog.CrashRuns
import McapCatalog.Healing
import McapCatalog.BucketHealing
import McapCatalog.WriterLockFile
import McapCatalog.WatchPath
import McapCatalog.TagLifetimes
import McapCatalog.DaemonHealing
import McapCatalog.DaemonTags
import McapCatalog.ObjectClients
import McapCatalog.PublishScenes
