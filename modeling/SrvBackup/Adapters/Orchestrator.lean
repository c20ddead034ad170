import SrvBackup.Adapters.ConfigBackup
import SrvBackup.Adapters.PackagesBackup
import SrvBackup.Adapters.ZfsBackup

/-!
# Backing up one server, and all of them

`backupServer` takes its three steps as an argument, so that the verdict logic can be studied
for arbitrary steps; `backupSteps` are the real ones. `backupAll` is the part of `backup_all`
after the thread pool: it collects the futures in the order in which they complete.
-/
namespace SrvBackup.Adapters

open SrvBackup.Domain SrvBackup.Effects SrvBackup.Storage

structure BackupSettings where
  backupBaseDir : Path
  maxParallel : Int
  zfsRetentionCount : Int
  configRetentionCount : Int
  packagelistRetentionCount : Int
  sshUser : String
  sshConnectTimeout : Int
  sshKeyDir : String
  sshKeyPrefix : String
  bootstrapKey : String := ""
  authorizedKeysPath : String := "/etc/pve/priv/authorized_keys"
  configPaths : List String := []
  excludePatterns : List String := []
  deriving DecidableEq

def resolveSshKey (server : ServerConfig) (keyDir keyPrefix : String) : String :=
  (Path.ofString keyDir / (keyPrefix ++ "_" ++ server.name)).str

/-- The three steps of a server's backup. -/
structure Steps where
  config : ServerConfig → BackupSettings → Ssh → Bool → Prog Unit
  packages : ServerConfig → BackupSettings → Ssh → Bool → Prog Unit
  zfs : ServerConfig → BackupSettings → Ssh → Bool → Prog Unit

def backupSteps : Steps where
  config server settings ssh dryRun :=
    backupConfig server settings.backupBaseDir settings.configPaths settings.excludePatterns ssh
      settings.configRetentionCount dryRun
  packages server settings ssh dryRun :=
    backupPackages server settings.backupBaseDir ssh settings.packagelistRetentionCount dryRun
  zfs server settings ssh dryRun :=
    backupZfs server settings.backupBaseDir ssh settings.zfsRetentionCount dryRun

/-- `backup_types in (ALL, CONFIG)`. -/
def wantConfig (types : BackupType) : Bool := types = .all || types = .config

/-- `backup_types in (ALL, ZFS)`. -/
def wantZfs (types : BackupType) : Bool := types = .all || types = .zfs

/-- What `backup_server` notes down about one backup type. -/
structure Verdict where
  ok : Bool := true
  error : String := ""
  skipped : Bool := false

/-- `try: step except Exception as exc`: the flag that stays, and the text of the error. -/
def tryStep (step : Prog Unit) : Prog Verdict :=
  Program.handle (do step; pure {}) fun e => pure { ok := false, error := e.str }

/-- The ssh arguments for a server. -/
def sshFor (server : ServerConfig) (settings : BackupSettings) : Ssh :=
  { key := resolveSshKey server settings.sshKeyDir settings.sshKeyPrefix
    user := settings.sshUser
    timeout := settings.sshConnectTimeout }

def attemptsConfig (types : BackupType) (server : ServerConfig) : Bool :=
  wantConfig types && server.backupConfigfiles

def attemptsZfs (types : BackupType) (server : ServerConfig) : Bool :=
  wantZfs types && server.backupSnapshot

/-- The first part of `backup_server`: the configuration archive, then the package lists, whose
failure is only logged. -/
def configPart (steps : Steps) (server : ServerConfig) (settings : BackupSettings) (ssh : Ssh)
    (types : BackupType) (dryRun : Bool) : Prog Verdict :=
  if attemptsConfig types server then do
    let verdict ← tryStep (steps.config server settings ssh dryRun)
    let _ ← tryStep (steps.packages server settings ssh dryRun)
    pure verdict
  else pure { skipped := !server.backupConfigfiles }

/-- The second part of `backup_server`. -/
def zfsPart (steps : Steps) (server : ServerConfig) (settings : BackupSettings) (ssh : Ssh)
    (types : BackupType) (dryRun : Bool) : Prog Verdict :=
  if attemptsZfs types server then tryStep (steps.zfs server settings ssh dryRun)
  else pure { skipped := !server.backupSnapshot }

/-- `config` is what `extract_backup_settings` makes of the configuration; only through it does
the configuration enter. -/
def backupServer (steps : Steps) (server : ServerConfig) (config : Except Error BackupSettings)
    (types : BackupType) (dryRun : Bool) : Prog BackupResult := do
  let settings ← Program.ofExcept config
  let ssh := sshFor server settings
  let start ← monotonic
  let config ← configPart steps server settings ssh types dryRun
  let zfs ← zfsPart steps server settings ssh types dryRun
  let stop ← monotonic
  pure {
    server := server.name
    configOk := config.ok, configError := config.error, configSkipped := config.skipped
    zfsOk := zfs.ok, zfsError := zfs.error, zfsSkipped := zfs.skipped
    durationSeconds := stop - start }

/-- The result of a future; an exception of the call itself becomes a result with both errors. -/
def futureResult (server : ServerConfig) : Except Error BackupResult → BackupResult
  | .ok result => result
  | .error e => { server := server.name, configError := e.str, zfsError := e.str }

/-- The futures in the order of completion, collected and sorted by server name. -/
def backupAll (completed : List (ServerConfig × Except Error BackupResult))
    (totalDuration : ℚ) : BackupSummary :=
  let results := completed.map fun future => futureResult future.1 future.2
  { results := results.insertionSort fun r r' => r.server ≤ r'.server
    totalDurationSeconds := totalDuration }

/-! ## The pool -/

/-- What the runs of a pool share: the local files. Each run has its own log. -/
structure Machine (n : Nat) where
  files : Files
  log : Fin n → List Event := fun _ => []

namespace Machine

variable {n : Nat}

def world (m : Machine n) (i : Fin n) : World := ⟨m.files, m.log i⟩

def put (m : Machine n) (i : Fin n) (w : World) : Machine n :=
  ⟨w.files, Function.update m.log i w.log⟩

@[simp] theorem world_put_self (m : Machine n) (i : Fin n) (w : World) :
    (m.put i w).world i = w := by
  simp [world, put]

theorem log_put_of_ne (m : Machine n) {i j : Fin n} (hij : j ≠ i) (w : World) :
    (m.put i w).log j = m.log j :=
  Function.update_of_ne hij _ _

@[simp] theorem files_put (m : Machine n) (i : Fin n) (w : World) : (m.put i w).files = w.files :=
  rfl

end Machine

/-- Run `i` meets its own environment and counts its own operations. -/
def poolHandler {n : Nat} (env : Fin n → Env) (i : Fin n) : Handler Sys (Machine n) := fun o m =>
  let r := (env i).handler o (m.world i)
  (r.1, m.put i r.2)

/-- The runs that `backup_all` submits, in the order of the servers. -/
def backupPool (steps : Steps) (servers : List ServerConfig) (config : Except Error BackupSettings)
    (types : BackupType) (dryRun : Bool) (i : Fin servers.length) : Prog BackupResult :=
  backupServer steps (servers.get i) config types dryRun

theorem tryStep_performs {P : Op → Prop} {step : Prog Unit} (h : step.Performs (E := Sys) P) :
    (tryStep step).Performs (E := Sys) P :=
  Program.Performs.handle (h.bind fun _ => Program.performs_ret _) fun _ => Program.performs_ret _

/-- A server's run does what its attempted steps do, and looks at the clock. -/
theorem backupServer_performs {P : Op → Prop} {steps : Steps} {server : ServerConfig}
    {settings : BackupSettings} {types : BackupType} {dryRun : Bool} (hclock : P .monotonic)
    (hconfig : attemptsConfig types server →
      (steps.config server settings (sshFor server settings) dryRun).Performs (E := Sys) P ∧
        (steps.packages server settings (sshFor server settings) dryRun).Performs (E := Sys) P)
    (hzfs : attemptsZfs types server →
      (steps.zfs server settings (sshFor server settings) dryRun).Performs (E := Sys) P) :
    (backupServer steps server (.ok settings) types dryRun).Performs (E := Sys) P := by
  have hfirst : (configPart steps server settings (sshFor server settings) types
      dryRun).Performs (E := Sys) P := by
    unfold configPart
    split
    · next h =>
      exact (tryStep_performs (hconfig h).1).bind fun _ =>
        (tryStep_performs (hconfig h).2).bind fun _ => Program.performs_ret _
    · trivial
  have hsecond : (zfsPart steps server settings (sshFor server settings) types
      dryRun).Performs (E := Sys) P := by
    unfold zfsPart
    split
    · next h => exact tryStep_performs (hzfs h)
    · trivial
  exact ⟨hclock, fun _ => hfirst.bind fun _ => hsecond.bind fun _ => ⟨hclock, fun _ => trivial⟩⟩

end SrvBackup.Adapters
