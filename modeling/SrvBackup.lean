import SrvBackup.Adapters.BackupCommand
import SrvBackup.Adapters.Cli
import SrvBackup.Adapters.Config
import SrvBackup.Adapters.ConfigBackup
import SrvBackup.Adapters.ConfigDeploy
import SrvBackup.Adapters.ConfigLoad
import SrvBackup.Adapters.Confinement
import SrvBackup.Adapters.EmailConfig
import SrvBackup.Adapters.EmailErrors
import SrvBackup.Adapters.Hosts
import SrvBackup.Adapters.KeyRuns
import SrvBackup.Adapters.KeySystem
import SrvBackup.Adapters.KeysCommand
import SrvBackup.Adapters.Logging
import SrvBackup.Adapters.Orchestrator
import SrvBackup.Adapters.Overrides
import SrvBackup.Adapters.PackagesBackup
import SrvBackup.Adapters.Retention
import SrvBackup.Adapters.SafeConsole
import SrvBackup.Adapters.Servers
import SrvBackup.Adapters.Settings
import SrvBackup.Adapters.SetupKeys
import SrvBackup.Adapters.Ssh
import SrvBackup.Adapters.System
import SrvBackup.Adapters.ZfsBackup
import SrvBackup.Domain.Behaviors
import SrvBackup.Domain.Models
import SrvBackup.Effects.Completion
import SrvBackup.Effects.Interleaving
import SrvBackup.Effects.Obligations
import SrvBackup.Effects.Program
import SrvBackup.Effects.Visits
import SrvBackup.Specification.AuthorizedKeys
import SrvBackup.Specification.ConfigDeploy
import SrvBackup.Specification.ConfigsHistory
import SrvBackup.Specification.Console
import SrvBackup.Specification.CutNights
import SrvBackup.Specification.CutOff
import SrvBackup.Specification.DeployedKeys
import SrvBackup.Specification.DiskUse
import SrvBackup.Specification.DryRun
import SrvBackup.Specification.EmailErrors
import SrvBackup.Specification.EmailKeys
import SrvBackup.Specification.Flags
import SrvBackup.Specification.Isolation
import SrvBackup.Specification.Keys
import SrvBackup.Specification.Leftovers
import SrvBackup.Specification.LoggingStart
import SrvBackup.Specification.Nights
import SrvBackup.Specification.Outcomes
import SrvBackup.Specification.Overrides
import SrvBackup.Specification.OwnSnapshot
import SrvBackup.Specification.PoolRuns
import SrvBackup.Specification.PoolSnapshots
import SrvBackup.Specification.ProfileChoice
import SrvBackup.Specification.Provenance
import SrvBackup.Specification.Pruning
import SrvBackup.Specification.Report
import SrvBackup.Specification.Rerun
import SrvBackup.Specification.Series
import SrvBackup.Specification.Settings
import SrvBackup.Specification.SnapshotHistory
import SrvBackup.Specification.Snapshots
import SrvBackup.Specification.StaleSnapshots
import SrvBackup.Specification.Success
import SrvBackup.Specification.Summary
import SrvBackup.Specification.Survival
import SrvBackup.Specification.TarCommand
import SrvBackup.Specification.Transfer
import SrvBackup.Storage.FileTree
import SrvBackup.Storage.Path
import SrvBackup.Storage.Ranking
import SrvBackup.Storage.Rotation
import SrvBackup.Storage.Sweep
import SrvBackup.Storage.Table
import SrvBackup.Text.Codec
import SrvBackup.Text.Encodings
import SrvBackup.Text.Glob
import SrvBackup.Text.Lines
import SrvBackup.Text.Order
import SrvBackup.Text.Shell
import SrvBackup.Text.Words
