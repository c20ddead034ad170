import SrvBackup.Adapters.ConfigBackup
import SrvBackup.Adapters.ZfsBackup

/-!
# What a transfer leaves behind

Two properties of one run of `backupConfig` and `backupZfs`, each with the exact condition
under which it holds. `ReportsSend` is about the two stages of the snapshot pipeline, of which
the shell reports the last; `CleanTransfer` is about the files after a failed transfer and
before retention.
-/
namespace SrvBackup.Specification

open SrvBackup.Domain SrvBackup.Effects SrvBackup.Storage SrvBackup.Adapters

/-- The exit status that a POSIX shell without `pipefail` gives a pipeline. -/
def pipelineStatus (stages : List Int) : Int := stages.getLastD 0

/-- A run that executed `zfs send | gzip` with these exit statuses reports them truthfully: it
returns only if both are zero, and if `zfs send` failed it raises a `SnapshotError`, its archive
is gone and every other file is as before. -/
structure ReportsSend (send gzip : Int) (dest : List Component) (start : Files)
    (run : Except Error Unit × World) : Prop where
  returns : run.1 = .ok () → send = 0 ∧ gzip = 0
  raises : send ≠ 0 → (∃ text, run.1 = .error (.snapshot text)) ∧
    FileAt start dest none run.2.files

section Sending

variable (env : Env) (server : ServerConfig) (backupDir : Path) (ssh : Ssh)

/-- The archive that a run of `backupZfs` writes. -/
def archivePath : Path := snapshotPath server backupDir (buildTimestamp (env.clock 0))

/-- The pipeline that a run of `backupZfs` executes. -/
def sendInvocation : Invocation :=
  pipeInvocation server (sendCmd server (buildTimestamp (env.clock 0))) ssh

theorem fresh_after_now (files : Files) (cmd : Invocation) (path : Path) :
    ¬ (World.record ⟨files, []⟩ .now (env.act 0 .now files)).Performed (.popen cmd path) := by
  rintro ⟨ev, hev, hop⟩
  simp [World.record] at hev
  simp [hev] at hop

theorem backupZfs_exec (retentionCount : Int) (files : Files) :
    env.exec (backupZfs server backupDir ssh retentionCount false) files =
      ((zfsTransfer server backupDir ssh (buildTimestamp (env.clock 0))).bind fun _ =>
        (applyRetention (snapshotsDir server backupDir) "*_snapshot_*.zfs.gz"
          retentionCount).bind fun _ => pure ()).run env.handler
            (World.record ⟨files, []⟩ .now (env.act 0 .now files)) := by
  rw [Env.exec, backupZfs_eq, Program.run_bind, run_now]
  rfl

variable {env server backupDir ssh}

/-- The transfer decides: whatever retention does after it, the run reports the pipeline
truthfully exactly when `zfs send` succeeded, or `gzip` failed too and the archive could be
removed. -/
theorem backupZfs_reportsSend_iff {files : Files} {send gzip : Int} {stream : Content}
    {stderr : String} (retentionCount : Int)
    (hpipe : env.pipe (sendInvocation env server ssh) =
      .ok ⟨pipelineStatus [send, gzip], stream, stderr⟩)
    (hran : (env.exec (backupZfs server backupDir ssh retentionCount false) files).2.Performed
      (.popen (sendInvocation env server ssh) (archivePath env server backupDir))) :
    ReportsSend send gzip ((archivePath env server backupDir).locate env.cwd) files
        (env.exec (backupZfs server backupDir ssh retentionCount false) files) ↔
      send = 0 ∨ gzip ≠ 0 ∧ env.fault (.unlink (archivePath env server backupDir)) = none := by
  have hfresh := fresh_after_now env files
  rw [backupZfs_exec, Program.run_bind] at hran ⊢
  generalize hw : World.record ⟨files, []⟩ .now (env.act 0 .now files) = w at hfresh hran ⊢
  obtain rfl : w.files = files := by rw [← hw]; rfl
  simp only [sendInvocation, archivePath] at hpipe hran ⊢
  generalize buildTimestamp (env.clock 0) = timestamp at *
  have hend := zfsTransfer_end env server backupDir ssh timestamp w
  generalize (zfsTransfer server backupDir ssh timestamp).run env.handler w = r at hend hran ⊢
  cases hend with
  | notSent e u _ hlog => exact absurd (hlog _ _ hran) (hfresh _ _)
  | tried v u u' r hv hvlog hsend hu' hulog =>
    have hcode : ∀ p, env.pipe (pipeInvocation server (sendCmd server timestamp) ssh) = .ok p →
        p.returncode = gzip := by
      intro p hp
      rw [hpipe] at hp
      cases hp
      rfl
    cases hsend with
    | failed failed exited e e' u hpipeEnd hraise =>
      simp only at hran ⊢
      have hreturns : ∀ u : World, ((.error e', u) : Except Error Unit × World).1 = .ok () →
          send = 0 ∧ gzip = 0 := fun _ h => by cases h
      cases hpipeEnd with
      | refused e u _ _ hlog => exact absurd (hvlog _ _ (hlog (hulog _ _ hran))) (hfresh _ _)
      | notStarted e u hp _ =>
        rw [hpipe] at hp
        cases hp
      | removed p u hp hne hfault hgone =>
        rw [hcode p hp] at hne
        refine iff_of_true ⟨hreturns u', fun _ => ⟨⟨_, congrArg _ (hraise _ rfl)⟩, ?_⟩⟩
          (.inr ⟨hne, hfault⟩)
        simpa only [FileAt, hu', hv] using hgone
      | stuck p e'' r u hp hne hfault hkept =>
        have hthere : u'.files.content?
            ((snapshotPath server backupDir timestamp).locate env.cwd) = some p.stdout := by
          simp [hu', hkept _]
        constructor
        · intro h
          refine .inl (by_contra fun hsend => ?_)
          have hgone := (h.raises hsend).2
            ((snapshotPath server backupDir timestamp).locate env.cwd)
          simp [hthere] at hgone
        · rintro (hsend | ⟨-, hnone⟩)
          · exact ⟨hreturns u', fun h => absurd hsend h⟩
          · rw [hfault] at hnone
            cases hnone
    | sent failed exited u u₁ r hpipeEnd hr hfiles =>
      cases hpipeEnd with
      | written p u hp hzero _ _ =>
        obtain rfl := (hcode p hp).symm.trans hzero
        simp only [ne_eq, not_true, false_and, or_false]
        refine ⟨fun h => by_contra fun hsend => ?_, fun hsend => ⟨fun _ => ⟨hsend, rfl⟩,
          fun h => absurd hsend h⟩⟩
        obtain ⟨text, htext⟩ := (h.raises hsend).1
        rcases hr with rfl | ⟨e, rfl⟩
        · have hret := (applyRetention_end env (snapshotsDir server backupDir)
            "*_snapshot_*.zfs.gz" retentionCount u').result
          simp only [Program.run_bind] at htext
          generalize (applyRetention _ _ _).run env.handler u' = r at hret htext
          obtain ⟨e | deleted, x⟩ := r
          · obtain ⟨_, h⟩ | ⟨_, h⟩ := hret <;> cases h
            cases htext
          · cases htext
        · cases htext

end Sending

/-! A server, a clock reading and an environment in which local files and commands work and the
streamed command ends as `transfer` says. -/

def sampleServer : ServerConfig := { name := "px01", hostname := "px01.lan", zfsPool := "rpool" }

def sampleSsh : Ssh := { key := "/root/.ssh/backup_pull_px01" }

def sampleBase : Path := Path.ofString "/backups"

def sampleTime : DateTime :=
  { year := 2026, month := 3, day := 23, hour := 4, minute := 30, second := 0, microsecond := 0 }

def sampleNextDay : DateTime := { sampleTime with day := 24, day_valid := by decide }

def sampleEnv (transfer : Except OSError PipedProcess) : Env where
  cwd := []
  clock _ := sampleTime
  monotonic _ := 0
  run _ _ := .ok ⟨0, "", ""⟩
  pipe _ := transfer
  fault _ := none

theorem backupZfs_reportsSend_sample :
    ReportsSend 1 1 ((archivePath (sampleEnv (.ok ⟨pipelineStatus [1, 1], [31], "no pool"⟩))
        sampleServer sampleBase).locate []) ∅
      ((sampleEnv (.ok ⟨pipelineStatus [1, 1], [31], "no pool"⟩)).exec
        (backupZfs sampleServer sampleBase sampleSsh 3 false) ∅) :=
  (backupZfs_reportsSend_iff 3 rfl (by decide +kernel)).mpr (.inr ⟨by decide, rfl⟩)

/-- The files of one good archive, from the day before `sampleTime`. -/
def sampleFiles : Files :=
  FileTree.set ∅
    (components "backups/px01/snapshots/rpool_snapshot_px01_2026-03-22_04-30-00.zfs.gz")
    (.file [31, 139, 8])

/-- `zfs send` dies, `gzip` ends cleanly: the run returns, and with one archive to keep it
deletes the good one for the truncated one. -/
theorem backupZfs_hides_failed_send :
    let env := sampleEnv (.ok ⟨pipelineStatus [1, 0], [31], "broken stream"⟩)
    let run := env.exec (backupZfs sampleServer sampleBase sampleSsh 1 false) sampleFiles
    run.1 = .ok () ∧
      run.2.files.content? (components
        "backups/px01/snapshots/rpool_snapshot_px01_2026-03-22_04-30-00.zfs.gz") = none ∧
      ¬ ReportsSend 1 0 ((archivePath env sampleServer sampleBase).locate env.cwd) sampleFiles
        run := by
  have hok : ((sampleEnv (.ok ⟨pipelineStatus [1, 0], [31], "broken stream"⟩)).exec
      (backupZfs sampleServer sampleBase sampleSsh 1 false) sampleFiles).1 = .ok () := by
    decide +kernel
  refine ⟨hok, by decide +kernel, fun h => ?_⟩
  exact absurd (h.returns hok).1 (by decide)

/-- The transfer failed: the command could not be started or its exit status is not zero. -/
def Failed : Except OSError PipedProcess → Prop
  | .error _ => True
  | .ok p => p.returncode ≠ 0

/-- What a run has to leave behind: after a failed transfer it raises and the files are as they
were; after a successful one, and before retention, the new file is the whole output. -/
structure CleanTransfer (transfer : Except OSError PipedProcess) (dest : List Component)
    (start : Files) (beforeRetention run : Except Error Unit × World) : Prop where
  failed : Failed transfer → (∃ e, run.1 = .error e) ∧ SameFiles start run.2.files
  sent : ∀ p, transfer = .ok p → p.returncode = 0 →
    FileAt start dest (some p.stdout) beforeRetention.2.files

/-- The command can be started, and if it fails its partial output can be removed. -/
def Recoverable (env : Env) (cmd : Invocation) (path : Path) : Prop :=
  ∃ p, env.pipe cmd = .ok p ∧ (p.returncode ≠ 0 → env.fault (.unlink path) = none)

/-- The condition is exact for every run that is decided by one `pipeToFile`. -/
theorem cleanTransfer_iff {env : Env} {cmd : Invocation} {failed exited : String} {path : Path}
    {v u : World} {r : Except Error Unit} {beforeRetention run : Except Error Unit × World}
    (hend : PipeEnd env cmd failed exited path v (r, u))
    (hnew : v.files.content? (path.locate env.cwd) = none)
    (hran : (∃ e, r = .error e) → u.Performed (.popen cmd path))
    (hfresh : ¬ v.Performed (.popen cmd path))
    (hbefore : beforeRetention.2.files = u.files)
    (hrun : ∀ e, r = .error e → (∃ e', run.1 = .error e') ∧ run.2.files = u.files) :
    CleanTransfer (env.pipe cmd) (path.locate env.cwd) v.files beforeRetention run ↔
      Recoverable env cmd path := by
  cases hend with
  | refused e u _ _ hlog => exact absurd (hlog (hran ⟨_, rfl⟩)) hfresh
  | notStarted e u hp hempty =>
    rw [Recoverable, hp]
    refine iff_of_false (fun h => ?_) (by simp)
    have hleft := (h.failed trivial).2 (path.locate env.cwd)
    simp [(hrun _ rfl).2, hempty _, hnew] at hleft
  | removed p u hp hne hfault hgone =>
    rw [Recoverable, hp]
    refine iff_of_true ⟨fun _ => ⟨(hrun _ rfl).1, fun q => ?_⟩, fun p' hp' hzero => ?_⟩
      ⟨p, rfl, fun _ => hfault⟩
    · rw [(hrun _ rfl).2, hgone q]
      split
      · next h => rw [h, hnew]
      · rfl
    · cases hp'
      exact absurd hzero hne
  | stuck p e r u hp hne hfault hkept =>
    rw [Recoverable, hp]
    refine iff_of_false (fun h => ?_) (by simp [hne, hfault])
    have hleft := (h.failed hne).2 (path.locate env.cwd)
    simp [(hrun _ rfl).2, hkept _, hnew] at hleft
  | written p u hp hzero _ hfile =>
    rw [Recoverable, hp]
    refine iff_of_true ⟨fun h => absurd hzero h, fun p' hp' _ => ?_⟩
      ⟨p, rfl, fun h => absurd hzero h⟩
    cases hp'
    rw [hbefore]
    exact hfile

section Clean

variable (env : Env) (server : ServerConfig) (backupDir : Path) (ssh : Ssh)

/-- A run of `backupZfs` up to retention. -/
def zfsBeforeRetention (files : Files) : Except Error Unit × World :=
  env.exec (now.bind fun t => zfsTransfer server backupDir ssh (buildTimestamp t)) files

/-- The archive that a run of `backupConfig` writes. -/
def configArchivePath : Path := configPath server backupDir (buildTimestamp (env.clock 0))

/-- The command that a run of `backupConfig` streams from. -/
def tarInvocation (configPaths excludePatterns : List String) : Invocation :=
  pipeInvocation server (buildTarCommand configPaths excludePatterns) ssh

theorem backupConfig_exec (configPaths excludePatterns : List String) (retentionCount : Int)
    (files : Files) :
    env.exec (backupConfig server backupDir configPaths excludePatterns ssh retentionCount false)
        files =
      ((configTransfer server backupDir configPaths excludePatterns ssh
          (buildTimestamp (env.clock 0))).bind fun _ =>
        (applyRetention (configsDir server backupDir) "backup_config_*.tar.gz"
          retentionCount).bind fun _ => pure ()).run env.handler
            (World.record ⟨files, []⟩ .now (env.act 0 .now files)) := by
  rw [Env.exec, backupConfig_eq, Program.run_bind, run_now]
  rfl

/-- A run of `backupConfig` up to retention. -/
def configBeforeRetention (configPaths excludePatterns : List String) (files : Files) :
    Except Error Unit × World :=
  env.exec (now.bind fun t => configTransfer server backupDir configPaths excludePatterns ssh
    (buildTimestamp t)) files

variable {env server backupDir ssh}

theorem backupZfs_clean_iff {files : Files} (retentionCount : Int)
    (hnew : files.content? ((archivePath env server backupDir).locate env.cwd) = none)
    (hran : (env.exec (backupZfs server backupDir ssh retentionCount false) files).2.Performed
      (.popen (sendInvocation env server ssh) (archivePath env server backupDir))) :
    CleanTransfer (env.pipe (sendInvocation env server ssh))
        ((archivePath env server backupDir).locate env.cwd) files
        (zfsBeforeRetention env server backupDir ssh files)
        (env.exec (backupZfs server backupDir ssh retentionCount false) files) ↔
      Recoverable env (sendInvocation env server ssh) (archivePath env server backupDir) := by
  have hfresh := fresh_after_now env files
  have hbefore : zfsBeforeRetention env server backupDir ssh files =
      (zfsTransfer server backupDir ssh (buildTimestamp (env.clock 0))).run env.handler
        (World.record ⟨files, []⟩ .now (env.act 0 .now files)) := rfl
  rw [backupZfs_exec, Program.run_bind] at hran ⊢
  rw [hbefore]
  generalize hw : World.record ⟨files, []⟩ .now (env.act 0 .now files) = w at hfresh hran ⊢
  obtain rfl : w.files = files := by rw [← hw]; rfl
  simp only [sendInvocation, archivePath] at hnew hran ⊢
  generalize buildTimestamp (env.clock 0) = timestamp at *
  have hend := zfsTransfer_end env server backupDir ssh timestamp w
  generalize (zfsTransfer server backupDir ssh timestamp).run env.handler w = r at hend hran ⊢
  cases hend with
  | notSent e u _ hlog => exact absurd (hlog _ _ hran) (hfresh _ _)
  | tried v u u' r hv hvlog hsend hu' hulog =>
    rw [← hv] at hnew ⊢
    have hfresh' := fun cmd path h => hfresh cmd path (hvlog cmd path h)
    cases hsend with
    | failed failed exited e e' u hpipe _ =>
      exact cleanTransfer_iff hpipe hnew (fun _ => hulog _ _ hran) (hfresh' _ _) hu'
        fun _ _ => ⟨⟨e', rfl⟩, hu'⟩
    | sent failed exited u u₁ r hpipe _ hfiles =>
      exact cleanTransfer_iff hpipe hnew (fun h => by cases h.choose_spec) (hfresh' _ _)
        (hu'.trans hfiles) fun _ h => by cases h

theorem backupConfig_clean_iff {configPaths excludePatterns : List String} {files : Files}
    (retentionCount : Int)
    (hnew : files.content? ((configArchivePath env server backupDir).locate env.cwd) = none)
    (hran : (env.exec (backupConfig server backupDir configPaths excludePatterns ssh
        retentionCount false) files).2.Performed
      (.popen (tarInvocation server ssh configPaths excludePatterns)
        (configArchivePath env server backupDir))) :
    CleanTransfer (env.pipe (tarInvocation server ssh configPaths excludePatterns))
        ((configArchivePath env server backupDir).locate env.cwd) files
        (configBeforeRetention env server backupDir ssh configPaths excludePatterns files)
        (env.exec (backupConfig server backupDir configPaths excludePatterns ssh retentionCount
          false) files) ↔
      Recoverable env (tarInvocation server ssh configPaths excludePatterns)
        (configArchivePath env server backupDir) := by
  have hfresh := fresh_after_now env files
  have hbefore : configBeforeRetention env server backupDir ssh configPaths excludePatterns files =
      (configTransfer server backupDir configPaths excludePatterns ssh
        (buildTimestamp (env.clock 0))).run env.handler
          (World.record ⟨files, []⟩ .now (env.act 0 .now files)) := rfl
  rw [backupConfig_exec, Program.run_bind] at hran ⊢
  rw [hbefore]
  generalize hw : World.record ⟨files, []⟩ .now (env.act 0 .now files) = w at hfresh hran ⊢
  obtain rfl : w.files = files := by rw [← hw]; rfl
  simp only [configArchivePath] at hnew hran ⊢
  generalize buildTimestamp (env.clock 0) = timestamp at *
  obtain ⟨failed, exited, r, u, r', u', hpipe, hrun, hfiles, hcases⟩ := configTransfer_end env
    server backupDir configPaths excludePatterns ssh timestamp w
  rw [hrun] at hran ⊢
  rcases hcases with ⟨e, rfl, rfl, rfl⟩ | ⟨rfl, -⟩
  · exact cleanTransfer_iff hpipe hnew (fun _ => hran) (hfresh _ _) rfl
      fun _ _ => ⟨⟨e, rfl⟩, rfl⟩
  · exact cleanTransfer_iff hpipe hnew (fun h => by cases h.choose_spec) (hfresh _ _) hfiles
      fun _ h => by cases h

end Clean

/-- Both kinds of run, for local and remote servers alike, clean up after a failed transfer
exactly when the command can be started and its partial output can be removed; and the two
ways to stream leave the same files. -/
theorem transfers_clean_iff (server : ServerConfig) (backupDir : Path) (ssh : Ssh) (env : Env) :
    (∀ (configPaths excludePatterns : List String) (retentionCount : Int) (files : Files),
      files.content? ((configArchivePath env server backupDir).locate env.cwd) = none →
      (env.exec (backupConfig server backupDir configPaths excludePatterns ssh retentionCount
        false) files).2.Performed (.popen (tarInvocation server ssh configPaths excludePatterns)
          (configArchivePath env server backupDir)) →
      (CleanTransfer (env.pipe (tarInvocation server ssh configPaths excludePatterns))
          ((configArchivePath env server backupDir).locate env.cwd) files
          (configBeforeRetention env server backupDir ssh configPaths excludePatterns files)
          (env.exec (backupConfig server backupDir configPaths excludePatterns ssh retentionCount
            false) files) ↔
        Recoverable env (tarInvocation server ssh configPaths excludePatterns)
          (configArchivePath env server backupDir))) ∧
    (∀ (retentionCount : Int) (files : Files),
      files.content? ((archivePath env server backupDir).locate env.cwd) = none →
      (env.exec (backupZfs server backupDir ssh retentionCount false) files).2.Performed
        (.popen (sendInvocation env server ssh) (archivePath env server backupDir)) →
      (CleanTransfer (env.pipe (sendInvocation env server ssh))
          ((archivePath env server backupDir).locate env.cwd) files
          (zfsBeforeRetention env server backupDir ssh files)
          (env.exec (backupZfs server backupDir ssh retentionCount false) files) ↔
        Recoverable env (sendInvocation env server ssh) (archivePath env server backupDir))) ∧
    ∀ (host command : String) (path : Path) (w : World),
      env.pipe (.argv (buildSshCmd host command ssh sshStreamOpts)) = env.pipe (.shell command) →
      ((sshPipeToFile host command path ssh).run env.handler w).2.files =
          ((localPipeToFile command path).run env.handler w).2.files ∧
        ((sshPipeToFile host command path ssh).run env.handler w).1.isOk =
          ((localPipeToFile command path).run env.handler w).1.isOk :=
  ⟨fun _ _ retentionCount _ hnew hran => backupConfig_clean_iff retentionCount hnew hran,
    fun retentionCount _ hnew hran => backupZfs_clean_iff retentionCount hnew hran,
    fun _ _ path w h => pipeToFile_agree h _ _ _ _ path w⟩

theorem transfers_clean_sample :
    CleanTransfer (.ok ⟨2, [31], "no pool"⟩)
      ((archivePath (sampleEnv (.ok ⟨2, [31], "no pool"⟩)) sampleServer sampleBase).locate [])
      sampleFiles
      (zfsBeforeRetention (sampleEnv (.ok ⟨2, [31], "no pool"⟩)) sampleServer sampleBase
        sampleSsh sampleFiles)
      ((sampleEnv (.ok ⟨2, [31], "no pool"⟩)).exec
        (backupZfs sampleServer sampleBase sampleSsh 3 false) sampleFiles) :=
  ((transfers_clean_iff sampleServer sampleBase sampleSsh
    (sampleEnv (.ok ⟨2, [31], "no pool"⟩))).2.1 3 sampleFiles (by decide +kernel)
      (by decide +kernel)).mpr ⟨_, rfl, fun _ => rfl⟩

/-- The command cannot be started: an empty archive stays, next to the good one. -/
theorem backupZfs_leaves_empty_archive :
    let env := sampleEnv (.error ⟨"Cannot allocate memory", false⟩)
    let run := env.exec (backupZfs sampleServer sampleBase sampleSsh 1 false) sampleFiles
    run.2.files.content? ((archivePath env sampleServer sampleBase).locate env.cwd) = some [] ∧
      ¬ CleanTransfer (env.pipe (sendInvocation env sampleServer sampleSsh))
        ((archivePath env sampleServer sampleBase).locate env.cwd) sampleFiles
        (zfsBeforeRetention env sampleServer sampleBase sampleSsh sampleFiles) run := by
  have hempty : (((sampleEnv (.error ⟨"Cannot allocate memory", false⟩)).exec
      (backupZfs sampleServer sampleBase sampleSsh 1 false) sampleFiles).2.files.content?
        ((archivePath (sampleEnv (.error ⟨"Cannot allocate memory", false⟩)) sampleServer
          sampleBase).locate [])) = some [] := by
    decide +kernel
  refine ⟨hempty, fun h => ?_⟩
  have hkept := (h.failed trivial).2 ((archivePath
    (sampleEnv (.error ⟨"Cannot allocate memory", false⟩)) sampleServer sampleBase).locate [])
  rw [hempty] at hkept
  exact absurd hkept (by decide +kernel)

end SrvBackup.Specification
