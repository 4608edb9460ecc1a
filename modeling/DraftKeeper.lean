import DraftKeeper.Assoc
import DraftKeeper.CommandLine
import DraftKeeper.Comparison
import DraftKeeper.Decimal.Shortest
import DraftKeeper.Delta
import DraftKeeper.Digest.Sha256
import DraftKeeper.Disk
import DraftKeeper.Draft
import DraftKeeper.DraftFolder
import DraftKeeper.Drafts
import DraftKeeper.Edit
import DraftKeeper.Failure
import DraftKeeper.Host
import DraftKeeper.Json.Basic
import DraftKeeper.Json.Decode
import DraftKeeper.Json.Document
import DraftKeeper.Json.Printer
import DraftKeeper.Keeper
import DraftKeeper.Launch
import DraftKeeper.LockTable
import DraftKeeper.Main
import DraftKeeper.OwnerOnly
import DraftKeeper.Path
import DraftKeeper.Proofs.Comparisons
import DraftKeeper.Proofs.Confinement
import DraftKeeper.Proofs.DeltaRuns
import DraftKeeper.Proofs.DiskFrames
import DraftKeeper.Proofs.DiskTrees
import DraftKeeper.Proofs.Dispatching
import DraftKeeper.Proofs.DraftFolders
import DraftKeeper.Proofs.DraftPlaces
import DraftKeeper.Proofs.Durability
import DraftKeeper.Proofs.Effects
import DraftKeeper.Proofs.EventKeys
import DraftKeeper.Proofs.FailedOperations
import DraftKeeper.Proofs.FiledDrafts
import DraftKeeper.Proofs.KeeperSteps
import DraftKeeper.Proofs.KeptDrafts
import DraftKeeper.Proofs.LostEdits
import DraftKeeper.Proofs.NormalPaths
import DraftKeeper.Proofs.OffsetUnits
import DraftKeeper.Proofs.Operations
import DraftKeeper.Proofs.PathLocks
import DraftKeeper.Proofs.Recovery
import DraftKeeper.Proofs.ScheduleOrder
import DraftKeeper.Proofs.Sessions
import DraftKeeper.Proofs.ShownTexts
import DraftKeeper.Proofs.Sweeps
import DraftKeeper.Proofs.TextEncoding
import DraftKeeper.Proofs.TextMaps
import DraftKeeper.Proofs.Turns
import DraftKeeper.Proofs.Workspaces
import DraftKeeper.Reach
import DraftKeeper.Schedule
import DraftKeeper.Service.Connection
import DraftKeeper.Service.Framing
import DraftKeeper.Service.Handler
import DraftKeeper.Settings
import DraftKeeper.Settings.File
import DraftKeeper.Settings.Json
import DraftKeeper.Text.Blank
import DraftKeeper.Text.Quoted
import DraftKeeper.Text.Unprintable
import DraftKeeper.Text.Utf8
import DraftKeeper.TextUnit
import DraftKeeper.Time.Civil
import DraftKeeper.Time.Rfc3339
import DraftKeeper.Toml.Node
import DraftKeeper.Toml.Reader
import DraftKeeper.Toml.Writer
import DraftKeeper.Tracking
import DraftKeeper.Trail
import DraftKeeper.Wire.Envelope
import DraftKeeper.Wire.Events
import DraftKeeper.Worker
import DraftKeeper.Workspace
import DraftKeeper.Proofs.Interleavings
import DraftKeeper.Proofs.AgreeingDisks
import DraftKeeper.Proofs.LocalWork
import DraftKeeper.Proofs.PreparedFolders
import DraftKeeper.Proofs.EventResults
import DraftKeeper.Proofs.ParallelRuns
import DraftKeeper.Proofs.Independence
import DraftKeeper.Proofs.LongNames
import DraftKeeper.Proofs.LockTraffic
import DraftKeeper.Proofs.PrunedLocks
import DraftKeeper.Proofs.GuardedPaths
import DraftKeeper.Proofs.WaitOrder
import DraftKeeper.Proofs.ReplicaLogs
import DraftKeeper.Proofs.RequestLines
import DraftKeeper.Proofs.StorageWork
import DraftKeeper.Proofs.OwnerOnlyFolders
import DraftKeeper.Proofs.DraftAddresses
import DraftKeeper.Proofs.FailureReports
import DraftKeeper.Proofs.DaemonSteps
import DraftKeeper.Proofs.Shutdown
import DraftKeeper.Proofs.WorkerRuns
import DraftKeeper.Proofs.VisibleEdits
import DraftKeeper.Proofs.DraftFiles
import DraftKeeper.Proofs.MovedDrafts
import DraftKeeper.Proofs.DraftLocations
import DraftKeeper.Proofs.StartedFiles
import DraftKeeper.Proofs.Records
import DraftKeeper.Proofs.EventForms
import DraftKeeper.Proofs.Envelopes
import DraftKeeper.Proofs.RequestHandling
import DraftKeeper.Proofs.WritableDrafts
import DraftKeeper.Proofs.FlushedDrafts
import DraftKeeper.Proofs.OffsetLookup
import DraftKeeper.Proofs.UndoneEdits
import DraftKeeper.Proofs.CanonicalPaths
import DraftKeeper.Proofs.SavedSettings
import DraftKeeper.Proofs.ReplacedBytes
import DraftKeeper.Proofs.ComparedTexts
import DraftKeeper.Proofs.FlatNames
