import SrvBackup.Adapters.Retention

/-!
# Configuration archives
-/
namespace SrvBackup.Adapters

open SrvBackup.Domain SrvBackup.Effects SrvBackup.Storage

def buildTarCommand (configPaths excludePatterns : List String) : String :=
  let excludes := " ".intercalate (excludePatterns.map ("--exclude=" ++ ·))
  let paths := " ".intercalate configPaths
  "tar --hard-dereference --ignore-failed-read -czf - " ++ excludes ++ " " ++ paths ++
    " 2>/dev/null"

def backupConfig (server : ServerConfig) (backupDir : Path)
    (configPaths excludePatterns : List String) (ssh : Ssh) (retentionCount : Int)
    (dryRun : Bool) : Prog Unit := do
  let timestamp := buildTimestamp (← now)
  let filename := buildConfigFilename server.name timestamp
  let destDir := backupDir / server.name / "configs"
  let destPath := destDir / filename
  let tarCmd := buildTarCommand configPaths excludePatterns
  if dryRun then pure ()
  else do
    pipeFrom server tarCmd destPath ssh
    let _ ← stat destPath
    let _ ← applyRetention destDir "backup_config_*.tar.gz" retentionCount
    pure ()

/-! ## How a run goes -/

def configsDir (server : ServerConfig) (backupDir : Path) : Path :=
  backupDir / server.name / "configs"

def configPath (server : ServerConfig) (backupDir : Path) (timestamp : String) : Path :=
  configsDir server backupDir / buildConfigFilename server.name timestamp

theorem backupConfig_performs {P : Op → Prop} {server : ServerConfig} {backupDir : Path}
    (configPaths excludePatterns : List String) (ssh : Ssh) (retentionCount : Int) (dryRun : Bool)
    (hnow : P .now)
    (hfile : ∀ t : DateTime, FileFootprint P (configPath server backupDir (buildTimestamp t)))
    (hdir : DirFootprint P (configsDir server backupDir)) :
    (backupConfig server backupDir configPaths excludePatterns ssh retentionCount
      dryRun).Performs (E := Sys) P := by
  refine (performs_now hnow).bind fun t => ?_
  dsimp only
  split
  · trivial
  · exact (pipeFrom_performs server _ ssh (hfile t)).bind fun _ =>
      (performs_stat (hfile t).stat).bind fun _ =>
        (applyRetention_performs _ retentionCount hdir).bind fun _ => trivial

/-- Everything before retention. -/
def configTransfer (server : ServerConfig) (backupDir : Path)
    (configPaths excludePatterns : List String) (ssh : Ssh) (timestamp : String) : Prog Unit := do
  pipeFrom server (buildTarCommand configPaths excludePatterns)
    (configPath server backupDir timestamp) ssh
  let _ ← stat (configPath server backupDir timestamp)
  pure ()

theorem backupConfig_eq (server : ServerConfig) (backupDir : Path)
    (configPaths excludePatterns : List String) (ssh : Ssh) (retentionCount : Int) :
    backupConfig server backupDir configPaths excludePatterns ssh retentionCount false =
      now.bind fun t =>
        (configTransfer server backupDir configPaths excludePatterns ssh (buildTimestamp t)).bind
          fun _ => (applyRetention (configsDir server backupDir) "backup_config_*.tar.gz"
            retentionCount).bind fun _ => pure () := by
  simp only [configTransfer, Program.bind_eq, Program.bind_assoc]
  rfl

/-- How the part before retention ends: as the transfer, except that the look at the file can
fail. -/
theorem configTransfer_end (env : Env) (server : ServerConfig) (backupDir : Path)
    (configPaths excludePatterns : List String) (ssh : Ssh) (timestamp : String) (w : World) :
    ∃ failed exited r u r' u',
      PipeEnd env (pipeInvocation server (buildTarCommand configPaths excludePatterns) ssh) failed
        exited (configPath server backupDir timestamp) w (r, u) ∧
      (configTransfer server backupDir configPaths excludePatterns ssh timestamp).run
        env.handler w = (r', u') ∧ u'.files = u.files ∧
      ((∃ e, r = .error e ∧ r' = .error e ∧ u' = u) ∨
        r = .ok () ∧ (r' = .ok () ∨ ∃ e, r' = .error (.os e) ∧
          (env.fault (.stat (configPath server backupDir timestamp)) ≠ none ∨
            u.files.content? ((configPath server backupDir timestamp).locate env.cwd) =
              none))) := by
  obtain ⟨failed, exited, hpipe⟩ := exists_pipeToFile_eq server
    (buildTarCommand configPaths excludePatterns) (configPath server backupDir timestamp) ssh
  have hend := pipeToFile_end env
    (pipeInvocation server (buildTarCommand configPaths excludePatterns) ssh) failed exited
    (configPath server backupDir timestamp) w
  simp only [configTransfer, hpipe, Program.bind_eq]
  rw [Program.run_bind]
  generalize (pipeToFile _ failed exited _).run env.handler w = r at hend ⊢
  obtain ⟨e | _, u⟩ := r
  · exact ⟨failed, exited, _, u, _, u, hend, rfl, rfl, .inl ⟨e, rfl, rfl, rfl⟩⟩
  · obtain ⟨r', u', hrun, hfiles, hr'⟩ :=
      stat_end env (configPath server backupDir timestamp) u
    exact ⟨failed, exited, _, u, r', u', hend, hrun, hfiles, .inr ⟨rfl, hr'⟩⟩

end SrvBackup.Adapters
