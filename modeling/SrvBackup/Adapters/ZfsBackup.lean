import SrvBackup.Adapters.Retention

/-!
# ZFS archives
-/
namespace SrvBackup.Adapters

open SrvBackup.Domain SrvBackup.Effects SrvBackup.Storage SrvBackup.Text

/-- `try p except SSHConnectionError as e: f str(e)`. -/
def exceptSSH {α : Type} (p : Prog α) (f : String → Prog α) : Prog α :=
  p.handle fun
    | .sshConnection text => f text
    | e => .raise e

def runCmd (server : ServerConfig) (command : String) (ssh : Ssh) : Prog Unit := do
  let _ ← runOn server command ssh
  pure ()

def pipeCmd (server : ServerConfig) (command : String) (localPath : Path) (ssh : Ssh) :
    Prog Unit := pipeFrom server command localPath ssh

def listCmd : String := "zfs list -H -t snapshot -o name | grep '@pull_backup_' || true"

/-- The one handler stands around the whole loop, so the first failing command ends it. -/
def cleanupStaleSnapshots (server : ServerConfig) (ssh : Ssh) : Prog Unit :=
  exceptSSH (do
    let result ← runOn server listCmd ssh
    let staleSnapshots := ((splitlines result.stdout).map strip).filter (· ≠ "")
    Program.forEach staleSnapshots fun snap => runCmd server ("zfs destroy -r " ++ snap) ssh)
  fun _ => pure ()

/-- `snapshot_created` is set between creating and sending, so the `finally` clause acts
exactly when the first part returned. -/
def backupZfs (server : ServerConfig) (backupDir : Path) (ssh : Ssh) (retentionCount : Int)
    (dryRun : Bool) : Prog Unit := do
  let timestamp := buildTimestamp (← now)
  let snapTag := buildSnapshotTag timestamp
  let fullSnap := server.zfsPool ++ "@" ++ snapTag
  let filename := buildSnapshotFilename server.name server.zfsPool timestamp
  let destDir := backupDir / server.name / "snapshots"
  let destPath := destDir / filename
  if dryRun then pure ()
  else do
    cleanupStaleSnapshots server ssh
    exceptSSH (runCmd server ("zfs snapshot -r " ++ fullSnap) ssh) fun text =>
      .raise (.snapshot ("Snapshot creation failed on " ++ server.name ++ ": " ++ text))
    Program.finallyDo
      (do
        exceptSSH (pipeCmd server ("zfs send -R " ++ fullSnap ++ " | gzip -1") destPath ssh)
          fun text =>
            .raise (.snapshot ("Snapshot transfer failed from " ++ server.name ++ ": " ++ text))
        let _ ← stat destPath
        pure ())
      (exceptSSH (runCmd server ("zfs destroy -r " ++ fullSnap) ssh) fun _ => pure ())
    let _ ← applyRetention destDir "*_snapshot_*.zfs.gz" retentionCount
    pure ()

/-! ## How a run goes -/

def snapshotsDir (server : ServerConfig) (backupDir : Path) : Path :=
  backupDir / server.name / "snapshots"

def snapshotPath (server : ServerConfig) (backupDir : Path) (timestamp : String) : Path :=
  snapshotsDir server backupDir / buildSnapshotFilename server.name server.zfsPool timestamp

def fullSnapshot (server : ServerConfig) (timestamp : String) : String :=
  server.zfsPool ++ "@" ++ buildSnapshotTag timestamp

def sendCmd (server : ServerConfig) (timestamp : String) : String :=
  "zfs send -R " ++ fullSnapshot server timestamp ++ " | gzip -1"

/-- The transfer of the snapshot and the look at the file it made. -/
def sendArchive (server : ServerConfig) (backupDir : Path) (ssh : Ssh) (timestamp : String) :
    Prog Unit := do
  exceptSSH (pipeCmd server (sendCmd server timestamp)
      (snapshotPath server backupDir timestamp) ssh) fun text =>
    .raise (.snapshot ("Snapshot transfer failed from " ++ server.name ++ ": " ++ text))
  let _ ← stat (snapshotPath server backupDir timestamp)
  pure ()

/-- Everything before retention. -/
def zfsTransfer (server : ServerConfig) (backupDir : Path) (ssh : Ssh) (timestamp : String) :
    Prog Unit := do
  cleanupStaleSnapshots server ssh
  exceptSSH (runCmd server ("zfs snapshot -r " ++ fullSnapshot server timestamp) ssh) fun text =>
    .raise (.snapshot ("Snapshot creation failed on " ++ server.name ++ ": " ++ text))
  Program.finallyDo (sendArchive server backupDir ssh timestamp)
    (exceptSSH (runCmd server ("zfs destroy -r " ++ fullSnapshot server timestamp) ssh)
      fun _ => pure ())

theorem backupZfs_eq (server : ServerConfig) (backupDir : Path) (ssh : Ssh)
    (retentionCount : Int) :
    backupZfs server backupDir ssh retentionCount false = now.bind fun t =>
      (zfsTransfer server backupDir ssh (buildTimestamp t)).bind fun _ =>
        (applyRetention (snapshotsDir server backupDir) "*_snapshot_*.zfs.gz" retentionCount).bind
          fun _ => pure () := by
  simp only [zfsTransfer, Program.bind_eq, Program.bind_assoc]
  rfl

theorem run_exceptSSH {α σ : Type} (h : Handler Sys σ) (p : Prog α) (f : String → Prog α) (s : σ) :
    (exceptSSH p f).run h s =
      match p.run h s with
      | (.error (.sshConnection text), t) => (f text).run h t
      | r => r := by
  rw [exceptSSH, Program.run_handle]
  rcases p.run h s with ⟨e | a, t⟩
  · cases e <;> rfl
  · rfl

theorem performs_exceptSSH {P : Op → Prop} {α : Type} {p : Prog α} {f : String → Prog α}
    (hp : p.Performs (E := Sys) P) (hf : ∀ text, (f text).Performs (E := Sys) P) :
    (exceptSSH p f).Performs (E := Sys) P := by
  refine hp.handle ?_
  rintro (text | _ | _ | _ | _)
  · exact hf text
  all_goals trivial

theorem runCmd_performs {P : Op → Prop} {server : ServerConfig} {command : String} {ssh : Ssh}
    (h : P (.run (runInvocation server command ssh))) :
    (runCmd server command ssh).Performs (E := Sys) P :=
  (runOn_performs h).bind fun _ => Program.performs_ret ()

theorem cleanupStaleSnapshots_performs {P : Op → Prop} {server : ServerConfig} {ssh : Ssh}
    (hrun : ∀ command, P (.run (runInvocation server command ssh))) :
    (cleanupStaleSnapshots server ssh).Performs (E := Sys) P :=
  performs_exceptSSH
    ((runOn_performs (hrun listCmd)).bind fun _ =>
      Program.performs_forEach fun _ _ => runCmd_performs (hrun _))
    fun _ => Program.performs_ret ()

theorem backupZfs_performs {P : Op → Prop} {server : ServerConfig} {backupDir : Path} {ssh : Ssh}
    (retentionCount : Int) (dryRun : Bool) (hnow : P .now)
    (hrun : ∀ command, P (.run (runInvocation server command ssh)))
    (hfile : ∀ t : DateTime, FileFootprint P (snapshotPath server backupDir (buildTimestamp t)))
    (hdir : DirFootprint P (snapshotsDir server backupDir)) :
    (backupZfs server backupDir ssh retentionCount dryRun).Performs (E := Sys) P := by
  refine (performs_now hnow).bind fun t => ?_
  dsimp only
  split
  · trivial
  refine (cleanupStaleSnapshots_performs hrun).bind fun _ => ?_
  refine (performs_exceptSSH (runCmd_performs (hrun _))
    fun _ => Program.performs_raise _).bind fun _ => ?_
  refine Program.Performs.bind (Program.Performs.finallyDo ?_
    (performs_exceptSSH (runCmd_performs (hrun _)) fun _ => Program.performs_ret ())) fun _ => ?_
  · exact (performs_exceptSSH (pipeFrom_performs server _ ssh (hfile t))
      fun _ => Program.performs_raise _).bind
        fun _ => (performs_stat (hfile t).stat).bind fun _ => trivial
  · exact (applyRetention_performs _ retentionCount hdir).bind fun _ => trivial

/-- Destroying the run's own snapshot never fails the run. -/
theorem runIgnored_end (env : Env) (server : ServerConfig) (command : String) (ssh : Ssh)
    (w : World) :
    ∃ u, (exceptSSH (runCmd server command ssh) fun _ => pure ()).run env.handler w =
        (.ok (), u) ∧ u.files = w.files ∧
      ∀ cmd path, u.Performed (.popen cmd path) → w.Performed (.popen cmd path) := by
  have hkeeps := run_of_runsCommand (p := runCmd server command ssh)
    (runCmd_performs ⟨_, rfl⟩) env w
  rw [run_exceptSSH]
  rcases hr : (runCmd server command ssh).run env.handler w with ⟨e | _, u⟩
  · rw [hr] at hkeeps
    have hssh : ∃ text, e = .sshConnection text := by
      simp only [runCmd, Program.bind_eq, Program.run_bind] at hr
      rcases hon : (runOn server command ssh).run env.handler w with ⟨e' | _, u'⟩
      · simp only [hon, Prod.mk.injEq, Except.error.injEq] at hr
        exact hr.1 ▸ runOn_error hon
      · simp [hon] at hr
    obtain ⟨text, rfl⟩ := hssh
    exact ⟨u, rfl, hkeeps⟩
  · rw [hr] at hkeeps
    exact ⟨u, rfl, hkeeps⟩

/-- How a transfer ends from `v`: it failed, or it went through and the file could be looked
at or not. -/
inductive SendEnd (env : Env) (server : ServerConfig) (backupDir : Path) (ssh : Ssh)
    (timestamp : String) (v : World) : Except Error Unit × World → Prop where
  | failed (failed exited : String) (e e' : Error) (u : World) :
      PipeEnd env (pipeInvocation server (sendCmd server timestamp) ssh) failed exited
        (snapshotPath server backupDir timestamp) v (.error e, u) →
      (∀ text, e = .sshConnection text → e' =
        .snapshot ("Snapshot transfer failed from " ++ server.name ++ ": " ++ text)) →
      SendEnd env server backupDir ssh timestamp v (.error e', u)
  | sent (failed exited : String) (u u' : World) (r : Except Error Unit) :
      PipeEnd env (pipeInvocation server (sendCmd server timestamp) ssh) failed exited
        (snapshotPath server backupDir timestamp) v (.ok (), u) →
      (r = .ok () ∨ ∃ e, r = .error (.os e)) → u'.files = u.files →
      SendEnd env server backupDir ssh timestamp v (r, u')

theorem sendArchive_end (env : Env) (server : ServerConfig) (backupDir : Path) (ssh : Ssh)
    (timestamp : String) (v : World) :
    SendEnd env server backupDir ssh timestamp v
      ((sendArchive server backupDir ssh timestamp).run env.handler v) := by
  obtain ⟨failed, exited, hpipe⟩ := exists_pipeToFile_eq server (sendCmd server timestamp)
    (snapshotPath server backupDir timestamp) ssh
  have hend := pipeToFile_end env (pipeInvocation server (sendCmd server timestamp) ssh) failed
    exited (snapshotPath server backupDir timestamp) v
  simp only [sendArchive, pipeCmd, hpipe, Program.bind_eq]
  rw [Program.run_bind, run_exceptSSH]
  generalize (pipeToFile _ failed exited _).run env.handler v = r at hend ⊢
  obtain ⟨e | _, u⟩ := r
  · cases e with
    | sshConnection text => exact .failed failed exited _ _ u hend (by simp)
    | _ => exact .failed failed exited _ _ u hend (by simp)
  · obtain ⟨r', u', hrun, hfiles, hr'⟩ :=
      stat_end env (snapshotPath server backupDir timestamp) u
    simp only [hrun]
    exact .sent failed exited u u' r' hend (hr'.imp_right fun ⟨e, he, _⟩ => ⟨e, he⟩) hfiles

/-- How the part before retention ends from `w`: without a transfer, with one that failed, or
with one that went through. -/
inductive ZfsTransferEnd (env : Env) (server : ServerConfig) (backupDir : Path) (ssh : Ssh)
    (timestamp : String) (w : World) : Except Error Unit × World → Prop where
  | notSent (e : Error) (u : World) : u.files = w.files →
      (∀ cmd path, u.Performed (.popen cmd path) → w.Performed (.popen cmd path)) →
      ZfsTransferEnd env server backupDir ssh timestamp w (.error e, u)
  | tried (v u u' : World) (r : Except Error Unit) : v.files = w.files →
      (∀ cmd path, v.Performed (.popen cmd path) → w.Performed (.popen cmd path)) →
      SendEnd env server backupDir ssh timestamp v (r, u) → u'.files = u.files →
      (∀ cmd path, u'.Performed (.popen cmd path) → u.Performed (.popen cmd path)) →
      ZfsTransferEnd env server backupDir ssh timestamp w (r, u')

theorem zfsTransfer_end (env : Env) (server : ServerConfig) (backupDir : Path) (ssh : Ssh)
    (timestamp : String) (w : World) :
    ZfsTransferEnd env server backupDir ssh timestamp w
      ((zfsTransfer server backupDir ssh timestamp).run env.handler w) := by
  simp only [zfsTransfer, Program.bind_eq, Program.run_bind]
  have hclean := run_of_runsCommand (p := cleanupStaleSnapshots server ssh)
    (cleanupStaleSnapshots_performs fun _ => ⟨_, rfl⟩) env w
  generalize (cleanupStaleSnapshots server ssh).run env.handler w = r₁ at hclean ⊢
  obtain ⟨e | _, w₁⟩ := r₁
  · exact .notSent e w₁ hclean.1 hclean.2
  simp only
  have hcreate := run_of_runsCommand (performs_exceptSSH
    (p := runCmd server ("zfs snapshot -r " ++ fullSnapshot server timestamp) ssh)
    (runCmd_performs ⟨_, rfl⟩)
    fun text => Program.performs_raise
      (.snapshot ("Snapshot creation failed on " ++ server.name ++ ": " ++ text))) env w₁
  generalize (exceptSSH (runCmd server ("zfs snapshot -r " ++ fullSnapshot server timestamp) ssh)
    _).run env.handler w₁ = r₂ at hcreate ⊢
  have hfiles := hcreate.1.trans hclean.1
  have hlog := fun c p h => hclean.2 c p (hcreate.2 c p h)
  obtain ⟨e | _, v⟩ := r₂
  · exact .notSent e v hfiles hlog
  have hsend := sendArchive_end env server backupDir ssh timestamp v
  simp only [Program.run_finallyDo]
  generalize (sendArchive server backupDir ssh timestamp).run env.handler v = r₃ at hsend ⊢
  obtain ⟨u, hu, hkeep, hkeepLog⟩ := runIgnored_end env server
    ("zfs destroy -r " ++ fullSnapshot server timestamp) ssh r₃.2
  rw [hu]
  exact .tried v r₃.2 u r₃.1 hfiles hlog hsend hkeep hkeepLog

end SrvBackup.Adapters
