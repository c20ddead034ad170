import SrvBackup.Adapters.ConfigBackup

/-!
# Package lists
-/
namespace SrvBackup.Adapters

open SrvBackup.Domain SrvBackup.Effects SrvBackup.Storage

def dpkgSelectionsCmd : String := "dpkg --get-selections"

def dpkgListCmd : String := "dpkg -l"

def runAndCapture (server : ServerConfig) (command : String) (ssh : Ssh) : Prog String := do
  let result ← runOn server command ssh
  pure result.stdout

def savePackageDump (server : ServerConfig) (command suffix : String) (destDir : Path)
    (timestamp : String) (ssh : Ssh) (retentionCount : Int) (dryRun : Bool) : Prog Unit := do
  let filename := buildPackagesFilename server.name timestamp suffix
  let destPath := destDir / filename
  if dryRun then pure ()
  else do
    let stdout ← runAndCapture server command ssh
    mkdir destDir
    writeText destPath stdout
    let _ ← applyRetention destDir ("packages_" ++ suffix ++ "_*.txt") retentionCount
    pure ()

def backupPackages (server : ServerConfig) (backupDir : Path) (ssh : Ssh) (retentionCount : Int)
    (dryRun : Bool) : Prog Unit := do
  let timestamp := buildTimestamp (← now)
  let destDir := backupDir / server.name / "configs"
  Program.forEach [(dpkgSelectionsCmd, "selections"), (dpkgListCmd, "list")] fun dump =>
    savePackageDump server dump.1 dump.2 destDir timestamp ssh retentionCount dryRun

/-! ## How a run goes -/

def packagesPath (server : ServerConfig) (backupDir : Path) (suffix timestamp : String) : Path :=
  configsDir server backupDir / buildPackagesFilename server.name timestamp suffix

theorem runAndCapture_performs {P : Op → Prop} {server : ServerConfig} {command : String}
    {ssh : Ssh} (h : P (.run (runInvocation server command ssh))) :
    (runAndCapture server command ssh).Performs (E := Sys) P :=
  (runOn_performs h).bind fun _ => Program.performs_ret _

theorem savePackageDump_performs {P : Op → Prop} {server : ServerConfig} {backupDir : Path}
    (command : String) {suffix timestamp : String} (ssh : Ssh) (retentionCount : Int)
    (dryRun : Bool) (hrun : P (.run (runInvocation server command ssh)))
    (hfile : FileFootprint P (packagesPath server backupDir suffix timestamp))
    (hdir : DirFootprint P (configsDir server backupDir)) :
    (savePackageDump server command suffix (configsDir server backupDir) timestamp ssh
      retentionCount dryRun).Performs (E := Sys) P := by
  unfold savePackageDump
  split
  · trivial
  refine (runAndCapture_performs hrun).bind fun stdout => ?_
  refine Program.Performs.bind ⟨hdir.mkdir, performs_raiseOS⟩ fun _ => ?_
  refine Program.Performs.bind ⟨hfile.writeText stdout, performs_raiseOS⟩ fun _ => ?_
  exact (applyRetention_performs _ retentionCount hdir).bind fun _ => trivial

theorem backupPackages_performs {P : Op → Prop} {server : ServerConfig} {backupDir : Path}
    {ssh : Ssh} (retentionCount : Int) (dryRun : Bool) (hnow : P .now)
    (hrun : ∀ command ∈ [dpkgSelectionsCmd, dpkgListCmd],
      P (.run (runInvocation server command ssh)))
    (hfile : ∀ suffix ∈ ["selections", "list"], ∀ t : DateTime,
      FileFootprint P (packagesPath server backupDir suffix (buildTimestamp t)))
    (hdir : DirFootprint P (configsDir server backupDir)) :
    (backupPackages server backupDir ssh retentionCount dryRun).Performs (E := Sys) P := by
  refine (performs_now hnow).bind fun t => Program.performs_forEach fun dump hdump => ?_
  have hcommand : dump.1 ∈ [dpkgSelectionsCmd, dpkgListCmd] := by
    simpa using List.mem_map_of_mem (f := Prod.fst) hdump
  have hsuffix : dump.2 ∈ ["selections", "list"] := by
    simpa using List.mem_map_of_mem (f := Prod.snd) hdump
  exact savePackageDump_performs dump.1 ssh retentionCount dryRun (hrun dump.1 hcommand)
    (hfile dump.2 hsuffix t) hdir

end SrvBackup.Adapters
