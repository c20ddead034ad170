import SrvBackup.Specification.ConfigsHistory
import SrvBackup.Specification.OwnSnapshot
import SrvBackup.Specification.PoolRuns
import SrvBackup.Specification.SnapshotHistory
import SrvBackup.Specification.Survival

/-!
# Series of files

The files of a server fall into series: the three kinds of the configs directory, and the snapshot
archives. Each step of a run makes the file of one series, or two, and leaves the others alone.
An `Upkeep` is a relation between the files of a series before and while its file is made. In every
state that a pool goes through, whatever fails in it, each series of each server has it
(`pool_upkeep`).
-/
namespace SrvBackup.Specification

open SrvBackup.Domain SrvBackup.Effects SrvBackup.Storage SrvBackup.Text SrvBackup.Adapters

/-! ## The files of a server -/

/-- What a server has files of: the kinds of its configs directory, and snapshot archives. -/
inductive Series where
  | configs (kind : Kind)
  | snapshots
  deriving DecidableEq

namespace Series

/-- The name of the directory in which the series is. -/
def dirname : Series → String
  | .configs _ => "configs"
  | .snapshots => "snapshots"

def dir (server : ServerConfig) (backupDir : Path) : Series → Path
  | .configs _ => configsDir server backupDir
  | .snapshots => snapshotsDir server backupDir

def pattern : Series → String
  | .configs kind => kind.pattern
  | .snapshots => snapshotPattern

def keep (settings : BackupSettings) : Series → Int
  | .configs .config => settings.configRetentionCount
  | .configs .selections | .configs .list => settings.packagelistRetentionCount
  | .snapshots => settings.zfsRetentionCount

/-- The file that a run makes at a time. -/
def path (server : ServerConfig) (backupDir : Path) (time : DateTime) : Series → Path
  | .configs kind => configsDir server backupDir / kind.filename server.name time
  | .snapshots => snapshotPath server backupDir (buildTimestamp time)

/-- The content is all that a command with exit status zero wrote. -/
def Made (env : Env) (server : ServerConfig) (settings : BackupSettings) (time : DateTime) :
    Series → Content → Prop
  | .configs .config, c => ∃ p, env.pipe (tarInvocation server (sshFor server settings)
      settings.configPaths settings.excludePatterns) = .ok p ∧ p.returncode = 0 ∧ c = p.stdout
  | .configs .selections, c => ∃ n p, env.run n (runInvocation server dpkgSelectionsCmd
      (sshFor server settings)) = .ok p ∧ p.returncode = 0 ∧ c = encodeUtf8 p.stdout
  | .configs .list, c => ∃ n p, env.run n (runInvocation server dpkgListCmd
      (sshFor server settings)) = .ok p ∧ p.returncode = 0 ∧ c = encodeUtf8 p.stdout
  | .snapshots, c => ∃ p, env.pipe (pipeInvocation server
      (sendCmd server (buildTimestamp time)) (sshFor server settings)) = .ok p ∧
        p.returncode = 0 ∧ c = p.stdout

/-- The location of a file that is made at a time. -/
def own (cwd : List Component) (server : ServerConfig) (backupDir : Path) (time : DateTime)
    (series : Series) : List Component := (series.path server backupDir time).locate cwd

/-- The locations of all files of the series, and of all that runs make for it. -/
def Holds (cwd : List Component) (server : ServerConfig) (backupDir : Path) (series : Series)
    (q : List Component) : Prop :=
  InSeries ((series.dir server backupDir).locate cwd) series.pattern q ∨
    ∃ time, q = series.own cwd server backupDir time

/-- The two directories of a server. -/
theorem exists_locate_dir (cwd : List Component) (server : ServerConfig) (backupDir : Path) :
    ∃ base : List Component, ∀ series : Series, ∃ x : Component,
      x.val = series.dirname ∧ (series.dir server backupDir).locate cwd = base ++ [x] := by
  refine ⟨(backupDir / server.name).locate cwd, fun series => ?_⟩
  have hentry : ∀ name : String, '/' ∉ name.toList → 3 ≤ name.toList.length →
      ∃ x : Component, x.val = name ∧ (backupDir / server.name / name).locate cwd =
        (backupDir / server.name).locate cwd ++ [x] := by
    intro name hslash hlen
    obtain ⟨x, rfl, hdot⟩ := exists_component hslash hlen
    exact ⟨x, rfl, by rw [Path.div_val, Path.locate_child _ _ hdot]⟩
  cases series with
  | configs kind => exact hentry "configs" (by decide) (by decide)
  | snapshots => exact hentry "snapshots" (by decide) (by decide)

section Apart

variable {cwd : List Component} {server : ServerConfig} {backupDir : Path}

/-- A file of a kind is an entry of the configs directory. -/
theorem exists_own_configs (hserver : '/' ∉ server.name.toList) (kind : Kind) (time : DateTime) :
    ∃ x : Component, Glob.fnmatch x.val kind.pattern ∧
      (Series.configs kind).own cwd server backupDir time =
        (configsDir server backupDir).locate cwd ++ [x] := by
  obtain ⟨x, hx, hdot⟩ := kind.exists_entry hserver time
  refine ⟨x, hx ▸ kind.fnmatch_filename _ _, ?_⟩
  rw [own, path, ← hx, Path.div_val, Path.locate_child _ _ hdot]

/-- What a run makes lies below the directory of the series. -/
theorem dir_prefix_own (hserver : '/' ∉ server.name.toList) (hpool : Path.Inward server.zfsPool)
    (series : Series) (time : DateTime) :
    (series.dir server backupDir).locate cwd <+: series.own cwd server backupDir time := by
  cases series with
  | configs kind =>
    obtain ⟨x, -, hown⟩ := @exists_own_configs cwd server backupDir hserver kind time
    rw [hown]
    exact List.prefix_append _ _
  | snapshots =>
    obtain ⟨ys, z, hpath, hys, hz⟩ := Path.exists_div_inward (snapshotsDir server backupDir) hpool
      (t := "_snapshot_" ++ server.name ++ "_" ++ buildTimestamp time ++ ".zfs.gz")
      (by simp [hserver, slash_notMem_buildTimestamp])
      (by simp only [String.toList_append, List.length_append]; simp)
    have hname : snapshotPath server backupDir (buildTimestamp time) =
        snapshotsDir server backupDir / (server.zfsPool ++
          ("_snapshot_" ++ server.name ++ "_" ++ buildTimestamp time ++ ".zfs.gz")) := by
      simp only [snapshotPath, buildSnapshotFilename, String.append_assoc]
    rw [own, path, hname, hpath, Path.locate_child _ _ hz, Path.locate_append cwd _ hys]
    exact (List.prefix_append _ _).trans (List.prefix_append _ _)

theorem Holds.below_dir (hserver : '/' ∉ server.name.toList) (hpool : Path.Inward server.zfsPool)
    {series : Series} {q : List Component} (hq : series.Holds cwd server backupDir q) :
    (series.dir server backupDir).locate cwd <+: q := by
  rcases hq with ⟨z, -, rfl⟩ | ⟨time, rfl⟩
  · exact List.prefix_append _ _
  · exact dir_prefix_own hserver hpool series time

/-- What the series of a kind holds are entries of the configs directory. -/
theorem Holds.exists_entry (hserver : '/' ∉ server.name.toList) {kind : Kind} {q : List Component}
    (hq : (Series.configs kind).Holds cwd server backupDir q) :
    ∃ z : Component, Glob.fnmatch z.val kind.pattern ∧
      q = (configsDir server backupDir).locate cwd ++ [z] := by
  rcases hq with hq | ⟨time, rfl⟩
  · exact hq
  · exact exists_own_configs hserver kind time

/-- Two series have no location in common. -/
theorem apart (hserver : '/' ∉ server.name.toList) (hpool : Path.Inward server.zfsPool)
    {made kept : Series} (hne : kept ≠ made) {q : List Component}
    (hq : kept.Holds cwd server backupDir q) : ¬ made.Holds cwd server backupDir q := by
  intro hq'
  obtain ⟨base, hdirs⟩ := exists_locate_dir cwd server backupDir
  obtain ⟨x, hx, hxloc⟩ := hdirs kept
  obtain ⟨y, hy, hyloc⟩ := hdirs made
  have hkept := hq.below_dir hserver hpool
  have hmade := hq'.below_dir hserver hpool
  rw [hxloc] at hkept
  rw [hyloc] at hmade
  have hxy : kept.dirname = made.dirname := by rw [← hx, ← hy, dir_unique hkept hmade]
  cases kept with
  | snapshots =>
    cases made with
    | snapshots => exact hne rfl
    | configs kind => simp [dirname] at hxy
  | configs kind =>
    cases made with
    | snapshots => simp [dirname] at hxy
    | configs kind' =>
      obtain ⟨z, hmatch, rfl⟩ := hq.exists_entry hserver
      obtain ⟨z', hmatch', heq⟩ := hq'.exists_entry hserver
      obtain rfl : z = z' := by simpa using heq
      exact hne (congrArg _ (Kind.eq_of_fnmatch hmatch hmatch'))

/-- What a server has lies below its own directory. -/
theorem Holds.below {x : Component} (hx : x.val = server.name) (hdots : x.val ≠ "..")
    (hpool : Path.Inward server.zfsPool) {series : Series} {q : List Component}
    (hq : series.Holds cwd server backupDir q) :
    ∃ rest, q = backupDir.locate cwd ++ x :: rest := by
  have hdir : backupDir.locate cwd ++ [x] <+: (series.dir server backupDir).locate cwd := by
    cases series with
    | configs kind =>
      exact (component_dir backupDir cwd (t := "configs") (by decide) (by decide) hx hdots).1
    | snapshots =>
      exact (component_dir backupDir cwd (t := "snapshots") (by decide) (by decide) hx hdots).1
  obtain ⟨rest, rfl⟩ := hdir.trans (hq.below_dir (hx ▸ x.2.2.2) hpool)
  exact ⟨rest, by simp⟩

end Apart

end Series

/-! ## The steps of a run -/

section Steps

variable {env : Env} {server : ServerConfig} {settings : BackupSettings} {series : Series}
  {time : DateTime} {α β : Type}

/-- A program leaves the files of the series alone. -/
def LeavesAlone (env : Env) (server : ServerConfig) (settings : BackupSettings) (series : Series)
    (p : Prog α) : Prop :=
  ∀ w : World, p.Always env.handler
    (fun u => SameAt (series.Holds env.cwd server settings.backupBaseDir) w.files u.files) w

theorem leavesAlone_ret (a : α) : LeavesAlone env server settings series (.ret a) :=
  fun w => .refl _ w.files

theorem leavesAlone_of_performs {p : Prog α} (hp : p.Performs (E := Sys)
      (SparesAt env.cwd (series.Holds env.cwd server settings.backupBaseDir))) :
    LeavesAlone env server settings series p := fun _ => always_sameAt hp rfl

theorem LeavesAlone.bind {p : Prog α} {f : α → Prog β}
    (hp : LeavesAlone env server settings series p)
    (hf : ∀ a, LeavesAlone env server settings series (f a)) :
    LeavesAlone env server settings series (p.bind f) := by
  intro w
  refine (hp w).bind fun a v hv => (hf a v).mono fun u hu => ?_
  have hfinal := (hp w).final
  rw [hv] at hfinal
  exact hfinal.trans hu

/-- The exception is noted down; nothing more is done. -/
theorem tryStep_always {I : World → Prop} {step : Prog Unit} {w : World}
    (h : step.Always env.handler I w) : (tryStep step).Always env.handler I w := by
  have hret : (do step; pure {} : Prog Verdict).Always env.handler I w :=
    h.bind_ret fun _ => ({} : Verdict)
  refine hret.handle fun e v hv => ?_
  have hfinal := hret.final
  rwa [hv] at hfinal

theorem LeavesAlone.tryStep {step : Prog Unit}
    (h : LeavesAlone env server settings series step) :
    LeavesAlone env server settings series (tryStep step) := fun w => tryStep_always (h w)

/-- The program writes the file of the series, completely if it goes on, and then prunes. -/
def Produces (env : Env) (server : ServerConfig) (settings : BackupSettings) (series : Series)
    (time : DateTime) (p : Prog Unit) : Prop :=
  ∃ write : Prog Unit,
    p = (write.bind fun _ => (applyRetention (series.dir server settings.backupBaseDir)
      series.pattern (series.keep settings)).bind fun _ => pure ()) ∧
    write.Performs (E := Sys)
      (SparesAt env.cwd (· ≠ series.own env.cwd server settings.backupBaseDir time)) ∧
    ∀ w v, write.run env.handler w = (.ok (), v) → ∃ c,
      v.files.content? (series.own env.cwd server settings.backupBaseDir time) = some c ∧
        series.Made env server settings time c

theorem Produces.leavesAlone {p : Prog Unit} (hserver : '/' ∉ server.name.toList)
    (hpool : Path.Inward server.zfsPool) {kept : Series} (hne : kept ≠ series)
    (hp : Produces env server settings series time p) :
    LeavesAlone env server settings kept p := by
  obtain ⟨write, rfl, hwrite, -⟩ := hp
  refine fun w => (write_prune_sameAt hwrite).mono fun u hu q hq => hu q ?_
  have hapart := Series.apart hserver hpool hne hq
  exact ⟨fun heq => hapart (.inr ⟨time, heq⟩), fun hin => hapart (.inl hin)⟩

theorem leavesAlone_now : LeavesAlone env server settings series now :=
  leavesAlone_of_performs (performs_now (sparesAt_of_quiet rfl _))

/-! What the three steps produce. -/

theorem sparesAt_file (cwd : List Component) (path : Path) :
    FileFootprint (SparesAt cwd (· ≠ path.locate cwd)) path := by
  have hown : ∀ {o : Op}, writes cwd o = some (path.locate cwd) →
      SparesAt cwd (· ≠ path.locate cwd) o := fun ho q hq h => hq (by simpa [ho] using h.symm)
  exact ⟨sparesAt_of_quiet rfl _, hown rfl, fun _ => hown rfl, hown rfl, sparesAt_of_quiet rfl _,
    fun _ => hown rfl⟩

theorem produces_config (env : Env) (server : ServerConfig) (settings : BackupSettings)
    (time : DateTime) :
    Produces env server settings (.configs .config) time
      ((configTransfer server settings.backupBaseDir settings.configPaths settings.excludePatterns
        (sshFor server settings) (buildTimestamp time)).bind fun _ =>
          (applyRetention (configsDir server settings.backupBaseDir) "backup_config_*.tar.gz"
            settings.configRetentionCount).bind fun _ => pure ()) := by
  refine ⟨_, rfl, ?_, fun w v hv => ?_⟩
  · have hfile := sparesAt_file env.cwd
      (configPath server settings.backupBaseDir (buildTimestamp time))
    exact (pipeFrom_performs server _ _ hfile).bind fun _ =>
      (performs_stat hfile.stat).bind fun _ => trivial
  · obtain ⟨failed, exited, r, u, r', u', hpipe, hrun, hfiles, hcases⟩ := configTransfer_end env
      server settings.backupBaseDir settings.configPaths settings.excludePatterns
      (sshFor server settings) (buildTimestamp time) w
    rw [hv] at hrun
    cases hrun
    obtain ⟨e, -, h, -⟩ | ⟨rfl, -⟩ := hcases
    · cases h
    cases hpipe with
    | written p _ hp hzero _ hfile =>
      refine ⟨p.stdout, ?_, p, hp, hzero, rfl⟩
      rw [hfiles]
      exact (hfile _).trans (if_pos rfl)

theorem produces_snapshot (env : Env) (server : ServerConfig) (settings : BackupSettings)
    (time : DateTime) :
    Produces env server settings .snapshots time
      ((zfsTransfer server settings.backupBaseDir (sshFor server settings)
        (buildTimestamp time)).bind fun _ =>
          (applyRetention (snapshotsDir server settings.backupBaseDir) "*_snapshot_*.zfs.gz"
            settings.zfsRetentionCount).bind fun _ => pure ()) := by
  refine ⟨_, rfl, ?_, fun w v hv => ?_⟩
  · have hfile := sparesAt_file env.cwd
      (snapshotPath server settings.backupBaseDir (buildTimestamp time))
    have hrun : ∀ command, SparesAt env.cwd
        (· ≠ Series.own env.cwd server settings.backupBaseDir time .snapshots)
        (.run (runInvocation server command (sshFor server settings))) := fun _ =>
      sparesAt_of_quiet rfl _
    refine (cleanupStaleSnapshots_performs hrun).bind fun _ =>
      (performs_exceptSSH (runCmd_performs (hrun _)) fun _ =>
        Program.performs_raise _).bind fun _ => Program.Performs.finallyDo ?_
          (performs_exceptSSH (runCmd_performs (hrun _)) fun _ => Program.performs_ret ())
    exact (performs_exceptSSH (pipeFrom_performs server _ _ hfile) fun _ =>
      Program.performs_raise _).bind fun _ => (performs_stat hfile.stat).bind fun _ => trivial
  · have hend := zfsTransfer_end env server settings.backupBaseDir (sshFor server settings)
      (buildTimestamp time) w
    rw [hv] at hend
    cases hend with
    | tried _ u _ _ _ _ hsend hkeep _ =>
      cases hsend with
      | sent failed exited x _ _ hpipe _ hfiles =>
        cases hpipe with
        | written p _ hp hzero _ hfile =>
          refine ⟨p.stdout, ?_, p, hp, hzero, rfl⟩
          rw [hkeep, hfiles]
          exact (hfile _).trans (if_pos rfl)

theorem content?_of_writeText {path : Path} {text : String} {w v : World}
    (h : (writeText path text).run env.handler w = (.ok (), v)) :
    v.files.content? (path.locate env.cwd) = some (encodeUtf8 text) := by
  rw [run_writeText, Prod.mk.injEq] at h
  obtain ⟨hok, rfl⟩ := h
  simp only [Env.act] at hok
  simp only [World.record, Env.act]
  rcases Env.update_cases (env.fault (.writeText path text)) ⟨"cannot open", false⟩
    (w.files.create (path.locate env.cwd) (encodeUtf8 text)) w.files with
      ⟨e, -, he⟩ | ⟨u, -, hu, heq⟩
  · rw [he] at hok
    cases hok
  · rw [heq, (FileTree.create_eq_some hu).2, FileTree.content?_set, if_pos rfl]
    rfl

theorem produces_dump (env : Env) (server : ServerConfig) (settings : BackupSettings)
    (time : DateTime) {command suffix : String} {kind : Kind}
    (hkeep : (Series.configs kind).keep settings = settings.packagelistRetentionCount)
    (hpattern : kind.pattern = "packages_" ++ suffix ++ "_*.txt")
    (hname : kind.filename server.name time =
      buildPackagesFilename server.name (buildTimestamp time) suffix)
    (hmade : ∀ c, (Series.configs kind).Made env server settings time c ↔
      ∃ n p, env.run n (runInvocation server command (sshFor server settings)) = .ok p ∧
        p.returncode = 0 ∧ c = encodeUtf8 p.stdout) :
    Produces env server settings (.configs kind) time
      (savePackageDump server command suffix (configsDir server settings.backupBaseDir)
        (buildTimestamp time) (sshFor server settings) settings.packagelistRetentionCount
        false) := by
  have hpath : configsDir server settings.backupBaseDir /
      buildPackagesFilename server.name (buildTimestamp time) suffix =
        (Series.configs kind).path server settings.backupBaseDir time := by
    rw [Series.path, hname]
  refine ⟨(runAndCapture server command (sshFor server settings)).bind fun stdout =>
    (mkdir (configsDir server settings.backupBaseDir)).bind fun _ =>
      writeText ((Series.configs kind).path server settings.backupBaseDir time) stdout,
    ?_, ?_, fun w v hv => ?_⟩
  · simp only [Program.bind_assoc, Series.pattern, hpattern, hkeep, ← hpath]
    rfl
  · have hfile := sparesAt_file env.cwd
      ((Series.configs kind).path server settings.backupBaseDir time)
    exact (runAndCapture_performs (sparesAt_of_quiet rfl _)).bind fun stdout =>
      Program.Performs.bind ⟨sparesAt_of_quiet rfl _, performs_raiseOS⟩ fun _ =>
        ⟨hfile.writeText stdout, performs_raiseOS⟩
  · obtain ⟨stdout, v₁, hcapture, hrest⟩ := Program.run_bind_eq_ok hv
    obtain ⟨_, v₂, hmkdir, hwrite⟩ := Program.run_bind_eq_ok hrest
    obtain ⟨p, x, hrun, hret⟩ := Program.run_bind_eq_ok hcapture
    obtain ⟨rfl, rfl⟩ : p.stdout = stdout ∧ x = v₁ := by simpa using hret
    obtain ⟨ev, -, ⟨p', hrun', hanswer, hstatus, -⟩ | ⟨text, hrun', -⟩⟩ :=
      run_runOn_event server command (sshFor server settings) env w
    · rw [hrun, Prod.mk.injEq, Except.ok.injEq] at hrun'
      obtain ⟨rfl, -⟩ := hrun'
      exact ⟨encodeUtf8 p.stdout, content?_of_writeText hwrite,
        (hmade _).mpr ⟨_, p, hanswer, hstatus, rfl⟩⟩
    · rw [hrun] at hrun'
      cases hrun'

end Steps

/-! ## Upkeep -/

/-- What a run that makes its files at a time does to the files of a series, wherever it is cut
off: a program that writes the file and then prunes does it, and so does one that leaves the series
alone. -/
structure Upkeep (env : Env) (server : ServerConfig) (settings : BackupSettings) where
  Rel : Series → DateTime → Files → Files → Prop
  of_same : ∀ {series time t u},
    SameAt (series.Holds env.cwd server settings.backupBaseDir) t u → Rel series time t u
  after : ∀ {series time t v u},
    SameAt (series.Holds env.cwd server settings.backupBaseDir) t v → Rel series time v u →
      Rel series time t u
  before : ∀ {series time t v u}, Rel series time t v →
    SameAt (series.Holds env.cwd server settings.backupBaseDir) v u → Rel series time t u
  produces : ∀ {series time p}, Produces env server settings series time p → ∀ w : World,
    p.Always env.handler (fun u => Rel series time w.files u.files) w

/-- Nothing is asked of a series. -/
def Upkeep.trivial {env : Env} {server : ServerConfig} {settings : BackupSettings} :
    Upkeep env server settings where
  Rel _ _ _ _ := True
  of_same _ := ⟨⟩
  after _ _ := ⟨⟩
  before _ _ := ⟨⟩
  produces _ _ := (Program.performs_true _).always (fun _ _ _ _ => ⟨⟩) ⟨⟩

section Upkeep

variable {env : Env} {server : ServerConfig} {settings : BackupSettings} {series : Series}
  {time : DateTime} {α β : Type} {upkeep : Upkeep env server settings}

/-- All along a run from `w` the series is kept up. -/
def KeptAlong (upkeep : Upkeep env server settings) (series : Series) (time : DateTime)
    (p : Prog α) (w : World) : Prop :=
  p.Always env.handler (fun u => upkeep.Rel series time w.files u.files) w

/-- A program keeps up the series, whenever it starts. -/
def Guards (upkeep : Upkeep env server settings) (series : Series) (p : Prog α) : Prop :=
  ∀ w : World, ∃ n, KeptAlong upkeep series (env.clock n) p w

theorem LeavesAlone.keptAlong {p : Prog α} (hp : LeavesAlone env server settings series p)
    (w : World) : KeptAlong upkeep series time p w :=
  (hp w).mono fun _ hu => upkeep.of_same hu

theorem LeavesAlone.guards {p : Prog α} (hp : LeavesAlone env server settings series p) :
    Guards upkeep series p := fun w => ⟨0, hp.keptAlong w⟩

theorem KeptAlong.bind {p : Prog α} {f : α → Prog β} {w : World}
    (hp : KeptAlong upkeep series time p w)
    (hf : ∀ a, LeavesAlone env server settings series (f a)) :
    KeptAlong upkeep series time (p.bind f) w := by
  refine Program.Always.bind hp fun a v hv => (hf a v).mono fun u hu => ?_
  have hfinal := hp.final
  rw [hv] at hfinal
  exact upkeep.before hfinal hu

theorem LeavesAlone.bind_keptAlong {p : Prog α} {f : α → Prog β} {w : World}
    (hp : LeavesAlone env server settings series p)
    (hf : ∀ a v, p.run env.handler w = (.ok a, v) → KeptAlong upkeep series time (f a) v) :
    KeptAlong upkeep series time (p.bind f) w := by
  refine Program.Always.bind (hp.keptAlong w) fun a v hv => (hf a v hv).mono fun u hu => ?_
  have hfinal := (hp w).final
  rw [hv] at hfinal
  exact upkeep.after hfinal hu

theorem Guards.bind {p : Prog α} {f : α → Prog β} (hp : Guards upkeep series p)
    (hf : ∀ a, LeavesAlone env server settings series (f a)) :
    Guards upkeep series (p.bind f) := fun w =>
  (hp w).imp fun _ h => h.bind hf

theorem LeavesAlone.bind_guards {p : Prog α} {f : α → Prog β}
    (hp : LeavesAlone env server settings series p) (hf : ∀ a, Guards upkeep series (f a)) :
    Guards upkeep series (p.bind f) := by
  intro w
  rcases hrun : p.run env.handler w with ⟨e | a, v⟩
  · exact ⟨0, hp.bind_keptAlong fun _ _ h => by simp [hrun] at h⟩
  · obtain ⟨n, hn⟩ := hf a v
    refine ⟨n, hp.bind_keptAlong fun a' v' h => ?_⟩
    obtain ⟨rfl, rfl⟩ : a = a' ∧ v = v' := by simpa [hrun] using h
    exact hn

theorem Guards.tryStep {step : Prog Unit} (h : Guards upkeep series step) :
    Guards upkeep series (tryStep step) := fun w =>
  (h w).imp fun _ => tryStep_always

/-- A step that looks at the clock, and produces or leaves alone from then on. -/
theorem guards_now {f : DateTime → Prog Unit}
    (hf : ∀ t w, KeptAlong upkeep series t (f t) w) : Guards upkeep series (now.bind f) := by
  intro w
  refine ⟨w.log.length, leavesAlone_now.bind_keptAlong fun t v hv => ?_⟩
  obtain ⟨rfl, rfl⟩ : env.clock w.log.length = t ∧
      w.record .now (env.act w.log.length .now w.files) = v := by simpa using hv
  exact hf _ _

/-! The three steps, and a whole run. -/

/-- A step makes files of these series, and leaves the others alone. -/
structure StepOf (upkeep : Upkeep env server settings) (made : Series → Prop) (p : Prog α) :
    Prop where
  guards : ∀ series, made series → Guards upkeep series p
  leavesAlone : ∀ series, ¬ made series → LeavesAlone env server settings series p

theorem stepOf_dryRun (made : Series → Prop) :
    StepOf upkeep made (now.bind fun _ => .ret ()) :=
  have h : ∀ series, LeavesAlone env server settings series (now.bind fun _ => .ret ()) :=
    fun _ => leavesAlone_now.bind fun _ => leavesAlone_ret ()
  ⟨fun series _ => (h series).guards, fun series _ => h series⟩

theorem StepOf.tryStep {made : Series → Prop} {p : Prog Unit}
    (h : StepOf upkeep made p) : StepOf upkeep made (tryStep p) :=
  ⟨fun series hseries => (h.guards series hseries).tryStep,
    fun series hseries => (h.leavesAlone series hseries).tryStep⟩

theorem StepOf.congr {made made' : Series → Prop} {p : Prog α}
    (hp : StepOf upkeep made p) (h : ∀ series, made series ↔ made' series) :
    StepOf upkeep made' p :=
  ⟨fun series hseries => hp.guards series ((h series).mpr hseries),
    fun series hseries => hp.leavesAlone series (mt (h series).mp hseries)⟩

/-- Two steps one after the other, which make different files. -/
theorem StepOf.bind {made made' : Series → Prop} {p : Prog α} {f : α → Prog β}
    (hp : StepOf upkeep made p) (hf : ∀ a, StepOf upkeep made' (f a))
    (hdisjoint : ∀ series, made series → ¬ made' series) :
    StepOf upkeep (fun series => made series ∨ made' series) (p.bind f) := by
  refine ⟨fun series hseries => ?_, fun series hseries => ?_⟩
  · by_cases hmade : made series
    · exact (hp.guards series hmade).bind fun a =>
        (hf a).leavesAlone series (hdisjoint series hmade)
    · exact (hp.leavesAlone series hmade).bind_guards fun a =>
        (hf a).guards series (hseries.resolve_left hmade)
  · push Not at hseries
    exact (hp.leavesAlone series hseries.1).bind fun a => (hf a).leavesAlone series hseries.2

theorem StepOf.bind_ret {made : Series → Prop} {p : Prog α}
    (hp : StepOf upkeep made p) (f : α → β) :
    StepOf upkeep made (p.bind fun a => .ret (f a)) :=
  ⟨fun series h => (hp.guards series h).bind fun _ => leavesAlone_ret _,
    fun series h => (hp.leavesAlone series h).bind fun _ => leavesAlone_ret _⟩

theorem Produces.stepOf (hserver : '/' ∉ server.name.toList) (hpool : Path.Inward server.zfsPool)
    {f : DateTime → Prog Unit} (hf : ∀ t, Produces env server settings series t (f t)) :
    StepOf upkeep (· = series) (now.bind f) := by
  refine ⟨fun other h => ?_, fun other hne => ?_⟩
  · subst h
    exact guards_now fun t => upkeep.produces (hf t)
  · exact leavesAlone_now.bind fun t => (hf t).leavesAlone hserver hpool hne

theorem stepOf_config (hserver : '/' ∉ server.name.toList) (hpool : Path.Inward server.zfsPool)
    (dryRun : Bool) :
    StepOf upkeep (· = .configs .config)
      (backupSteps.config server settings (sshFor server settings) dryRun) := by
  cases dryRun with
  | true => exact stepOf_dryRun _
  | false =>
    simp only [backupSteps, backupConfig_eq]
    exact Produces.stepOf hserver hpool fun t => produces_config env server settings t

theorem stepOf_zfs (hserver : '/' ∉ server.name.toList) (hpool : Path.Inward server.zfsPool)
    (dryRun : Bool) :
    StepOf upkeep (· = .snapshots)
      (backupSteps.zfs server settings (sshFor server settings) dryRun) := by
  cases dryRun with
  | true => exact stepOf_dryRun _
  | false =>
    simp only [backupSteps, backupZfs_eq]
    exact Produces.stepOf hserver hpool fun t => produces_snapshot env server settings t

theorem stepOf_packages (upkeep : Upkeep env server settings)
    (hserver : '/' ∉ server.name.toList) (hpool : Path.Inward server.zfsPool)
    (dryRun : Bool) :
    StepOf upkeep (fun s => s = .configs .selections ∨ s = .configs .list)
      (backupSteps.packages server settings (sshFor server settings) dryRun) := by
  cases dryRun with
  | true => exact stepOf_dryRun _
  | false =>
    have hselections : ∀ t, Produces env server settings (.configs .selections) t
        (savePackageDump server dpkgSelectionsCmd "selections"
          (configsDir server settings.backupBaseDir) (buildTimestamp t) (sshFor server settings)
          settings.packagelistRetentionCount false) := fun t =>
      produces_dump env server settings t rfl rfl rfl fun _ => Iff.rfl
    have hlist : ∀ t, Produces env server settings (.configs .list) t
        (savePackageDump server dpkgListCmd "list"
          (configsDir server settings.backupBaseDir) (buildTimestamp t) (sshFor server settings)
          settings.packagelistRetentionCount false) := fun t =>
      produces_dump env server settings t rfl rfl rfl fun _ => Iff.rfl
    refine ⟨?_, fun series hne => leavesAlone_now.bind fun t => ?_⟩
    · rintro _ (rfl | rfl)
      · exact guards_now fun t w =>
          (show KeptAlong upkeep _ t _ w from upkeep.produces (hselections t) w).bind fun _ =>
            ((hlist t).leavesAlone hserver hpool (by decide)).bind fun _ => leavesAlone_ret ()
      · exact guards_now fun t w =>
          ((hselections t).leavesAlone hserver hpool (by decide)).bind_keptAlong fun _ v _ =>
            (show KeptAlong upkeep _ t _ v from upkeep.produces (hlist t) v).bind fun _ =>
              leavesAlone_ret ()
    · push Not at hne
      exact ((hselections t).leavesAlone hserver hpool hne.1).bind fun _ =>
        ((hlist t).leavesAlone hserver hpool hne.2).bind fun _ => leavesAlone_ret ()

theorem stepOf_ret (made : Series → Prop) (a : α) :
    StepOf upkeep made (.ret a) :=
  ⟨fun _ _ => (leavesAlone_ret a).guards, fun _ _ => leavesAlone_ret a⟩

theorem stepOf_configPart (upkeep : Upkeep env server settings)
    (hserver : '/' ∉ server.name.toList) (hpool : Path.Inward server.zfsPool)
    (types : BackupType) (dryRun : Bool) :
    StepOf upkeep (· ≠ .snapshots)
      (configPart backupSteps server settings (sshFor server settings) types dryRun) := by
  unfold configPart
  split
  · refine StepOf.congr (StepOf.bind (stepOf_config hserver hpool dryRun).tryStep
      (fun verdict =>
        (stepOf_packages upkeep hserver hpool dryRun).tryStep.bind_ret fun _ => verdict)
      ?_) fun series => ?_
    · rintro _ rfl
      decide
    · rcases series with (_ | _ | _) | _ <;> decide
  · exact stepOf_ret _ _

theorem stepOf_zfsPart (upkeep : Upkeep env server settings)
    (hserver : '/' ∉ server.name.toList) (hpool : Path.Inward server.zfsPool)
    (types : BackupType) (dryRun : Bool) :
    StepOf upkeep (· = .snapshots)
      (zfsPart backupSteps server settings (sshFor server settings) types dryRun) := by
  unfold zfsPart
  split
  · exact (stepOf_zfs hserver hpool dryRun).tryStep
  · exact stepOf_ret _ _

/-- A run of `backup_server` keeps up every series of its server. -/
theorem backupServer_guards (hserver : '/' ∉ server.name.toList)
    (hpool : Path.Inward server.zfsPool) (types : BackupType) (dryRun : Bool) (series : Series) :
    Guards upkeep series
      (backupServer backupSteps server (.ok settings) types dryRun) := by
  have hmonotonic : LeavesAlone env server settings series monotonic :=
    leavesAlone_of_performs ⟨sparesAt_of_quiet rfl _, fun _ => trivial⟩
  have hconfig : StepOf upkeep (· ≠ .snapshots)
      (configPart backupSteps server settings (sshFor server settings) types dryRun) :=
    stepOf_configPart upkeep hserver hpool types dryRun
  have hzfs : StepOf upkeep (· = .snapshots)
      (zfsPart backupSteps server settings (sshFor server settings) types dryRun) :=
    stepOf_zfsPart upkeep hserver hpool types dryRun
  refine hmonotonic.bind_guards fun start => ?_
  have hrest : ∀ (config zfs : Verdict) (start : ℚ), LeavesAlone env server settings series
      (monotonic.bind fun stop => .ret ({
        server := server.name
        configOk := config.ok, configError := config.error, configSkipped := config.skipped
        zfsOk := zfs.ok, zfsError := zfs.error, zfsSkipped := zfs.skipped
        durationSeconds := stop - start } : BackupResult)) := fun _ _ _ =>
    hmonotonic.bind fun _ => leavesAlone_ret _
  by_cases hseries : series = .snapshots
  · exact (hconfig.leavesAlone series (not_not.mpr hseries)).bind_guards fun config =>
      (hzfs.guards series hseries).bind fun zfs => hrest config zfs start
  · exact (hconfig.guards series hseries).bind fun config =>
      (hzfs.leavesAlone series hseries).bind fun zfs => hrest config zfs start

end Upkeep

/-! ## Pools -/

section Pool

variable {servers : List ServerConfig} {settings : BackupSettings} {types : BackupType}
  {dryRun : Bool} {cwd : List Component} {env : Fin servers.length → Env} {files : Files}

/-- The files of a series are in the part of the tree that its run sees. -/
theorem sameAt_restrict {server : ServerConfig} {backupDir : Path} {x : Component}
    (hx : x.val = server.name) (hdots : x.val ≠ "..") (hpool : Path.Inward server.zfsPool)
    (series : Series) (t : Files) :
    SameAt (series.Holds cwd server backupDir) t
      (t.restrict (ownPart (backupDir.locate cwd) x)) := by
  intro q hq
  obtain ⟨rest, rfl⟩ := hq.below hx hdots hpool
  exact FileTree.content?_eq_of_restrict_eq (FileTree.restrict_restrict t) fun c =>
    (ownPart_covers (backupDir.locate cwd) x).below _ (by simp) _

/-- Wherever a pool is cut off, whatever has failed in it and whatever its schedule is, every series
of every server has been kept up. -/
theorem pool_upkeep (hservers : ServersApart servers) (hcwd : ∀ i, (env i).cwd = cwd)
    {width : Nat} {c : Pool Sys Error BackupResult (Machine servers.length) servers.length}
    (hc : PoolReaches servers settings types dryRun env files width c) (i : Fin servers.length)
    (upkeep : Upkeep (env i) (servers.get i) settings) (series : Series) :
    ∃ n, upkeep.Rel series ((env i).clock n) files c.shared.files := by
  obtain ⟨dir, hinj, hdir⟩ := exists_serverDirs hservers.names hservers.distinct
  have hpools := hservers.pools _ (List.getElem_mem i.isLt)
  have hconfined : ∀ i, (backupPool backupSteps servers (.ok settings) types dryRun i).Performs
      (E := Sys) (Confined cwd (settings.backupBaseDir.locate cwd ++ [dir i])) := fun i =>
    backupServer_confined (hdir i).1 (hdir i).2 (hservers.pools _ (List.getElem_mem _)) settings
      types dryRun
  have hserver : '/' ∉ (servers.get i).name.toList := (hdir i).1 ▸ (dir i).2.2.2
  have hguards : Guards upkeep series
      (backupPool backupSteps servers (.ok settings) types dryRun i) :=
    backupServer_guards hserver hpools types dryRun series
  obtain ⟨n, hn⟩ := hguards ⟨files, []⟩
  have hsame : ∀ t : Files, SameAt (series.Holds (env i).cwd (servers.get i)
      settings.backupBaseDir) t
        (t.restrict (ownPart (settings.backupBaseDir.locate cwd) (dir i))) := fun t => by
      rw [hcwd i]
      exact sameAt_restrict (hdir i).1 (hdir i).2 hpools series t
  have iso := pool_isolated (settings.backupBaseDir.locate cwd) hcwd hinj
  have halone := ((Program.performs_true (backupPool backupSteps servers (.ok settings) types
    dryRun i)).always_view (h := poolHandler env i) (g := (env i).handler)
      (v := fun m : Machine servers.length => m.world i)
      (fun _ m _ => ⟨rfl, Machine.world_put_self m i _⟩) ⟨files, fun _ => []⟩).mpr hn
  have hkept := iso.always (i := i)
    (I := fun w => upkeep.Rel series ((env i).clock n) files w.files)
    hc hconfined (halone.mono fun m hm => upkeep.before hm (hsame m.files))
  exact ⟨n, upkeep.before hkept fun q hq => (hsame c.shared.files q hq).symm⟩

end Pool

end SrvBackup.Specification
