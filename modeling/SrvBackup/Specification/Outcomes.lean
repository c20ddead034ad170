import SrvBackup.Specification.Series

/-!
# What a run makes of a series

The result of a server says of its config archive and of its snapshot archive whether their steps
succeeded. An `Outcome` is what a step that succeeded, or one that did not, makes of the files of a
series. If the step of the series has the outcome, then every run of the server has the one that
its result says (`backupServer_outcome`), and so has every finished pool, with the result that the
summary has for the server (`backupAll_outcome`).
-/
namespace SrvBackup.Specification

open SrvBackup.Domain SrvBackup.Effects SrvBackup.Storage SrvBackup.Text SrvBackup.Adapters

/-- What a step makes of the files at `Q` when it succeeds, and when it does not. What happens
elsewhere before and after the step is of no account. -/
structure Outcome (Q : List Component → Prop) where
  Pre : Files → Prop
  Rel : Bool → Files → Files → Prop
  pre_congr : ∀ {t u}, SameAt Q t u → Pre t → Pre u
  none : ∀ t, Rel false t t
  after : ∀ {b t v u}, SameAt Q t v → Rel b v u → Rel b t u
  before : ∀ {b t v u}, Rel b t v → SameAt Q v u → Rel b t u

namespace Outcome

variable {Q : List Component → Prop} {env : Env} {outcome : Outcome Q}

/-- The step has the outcome, except that a dry run makes nothing. -/
def OfStep (outcome : Outcome Q) (env : Env) (dryRun : Bool) (p : Prog Unit) : Prop :=
  ∀ w : World, outcome.Pre w.files → outcome.Rel (!dryRun && (p.run env.handler w).1.isOk) w.files
    (p.run env.handler w).2.files

/-- The part of a run notes down a verdict, and has the outcome that it says if it counts. -/
def OfPart (outcome : Outcome Q) (env : Env) (counts : Bool) (part : Prog Verdict) : Prop :=
  ∀ w : World, outcome.Pre w.files → ∃ verdict u, part.run env.handler w = (.ok verdict, u) ∧
    outcome.Rel (counts && verdict.ok) w.files u.files

/-- A step that looks at the clock first. -/
theorem ofStep_now {f : DateTime → Prog Unit} (hf : ∀ n w, outcome.Pre w.files →
      outcome.Rel ((f (env.clock n)).run env.handler w).1.isOk w.files
        ((f (env.clock n)).run env.handler w).2.files) :
    outcome.OfStep env false (now.bind f) := by
  intro w hpre
  rw [Program.run_bind, run_now]
  exact hf w.log.length (w.record .now (env.act w.log.length .now w.files)) hpre

theorem ofStep_dryRun : outcome.OfStep env true (now.bind fun _ => .ret ()) :=
  fun w _ => outcome.none w.files

end Outcome

/-! ## The run of a server -/

namespace Series

/-- The series for which a result says whether its step succeeded. -/
inductive Archived : Series → Prop where
  | config : Archived (.configs .config)
  | snapshots : Archived .snapshots

def attempted (types : BackupType) (server : ServerConfig) : Series → Bool
  | .configs .config => attemptsConfig types server
  | .configs _ => false
  | .snapshots => attemptsZfs types server

def okIn (r : BackupResult) : Series → Bool
  | .configs .config => r.configOk
  | .configs _ => false
  | .snapshots => r.zfsOk

/-- The step that makes the file of the series. -/
def step (server : ServerConfig) (settings : BackupSettings) (dryRun : Bool) : Series → Prog Unit
  | .configs .config => backupSteps.config server settings (sshFor server settings) dryRun
  | .configs _ => backupSteps.packages server settings (sshFor server settings) dryRun
  | .snapshots => backupSteps.zfs server settings (sshFor server settings) dryRun

end Series

section Run

variable {env : Env} {server : ServerConfig} {settings : BackupSettings} {types : BackupType}
  {dryRun : Bool} {Q : List Component → Prop} {outcome : Outcome Q}

theorem run_tryStep {σ : Type} (h : Handler Sys σ) (step : Prog Unit) (s : σ) :
    (tryStep step).run h s = (.ok (match (step.run h s).1 with
      | .ok _ => {}
      | .error e => { ok := false, error := e.str }), (step.run h s).2) := by
  rw [tryStep, Program.run_handle, Program.bind_eq, Program.run_bind]
  rcases step.run h s with ⟨e | _, t⟩ <;> rfl

theorem Outcome.OfStep.tryStep {p : Prog Unit} (hp : outcome.OfStep env dryRun p) :
    outcome.OfPart env (!dryRun) (tryStep p) := by
  intro w hpre
  refine ⟨_, _, run_tryStep env.handler p w, ?_⟩
  have hrel := hp w hpre
  generalize p.run env.handler w = ending at hrel ⊢
  obtain ⟨e | _, u⟩ := ending
  · exact hrel
  · exact hrel

/-- A part that leaves the files alone does not count. -/
theorem Outcome.ofPart_of_sameAt {part : Prog Verdict}
    (hsame : ∀ w : World, SameAt Q w.files (part.run env.handler w).2.files)
    (hreturns : ∀ w : World, ∃ verdict u, part.run env.handler w = (.ok verdict, u)) :
    outcome.OfPart env false part := by
  intro w _
  obtain ⟨verdict, u, hrun⟩ := hreturns w
  have hfiles := hsame w
  rw [hrun] at hfiles
  exact ⟨verdict, u, hrun, outcome.before (outcome.none _) hfiles⟩

/-- What comes after a part keeps its verdict and leaves the files alone. -/
theorem Outcome.OfPart.bind {counts : Bool} {part : Prog Verdict} {f : Verdict → Prog Verdict}
    (hpart : outcome.OfPart env counts part)
    (hsame : ∀ verdict (w : World), SameAt Q w.files ((f verdict).run env.handler w).2.files)
    (hreturns : ∀ verdict (w : World), ∃ u, (f verdict).run env.handler w = (.ok verdict, u)) :
    outcome.OfPart env counts (part.bind f) := by
  intro w hpre
  obtain ⟨verdict, u, hrun, hrel⟩ := hpart w hpre
  obtain ⟨u', hrun'⟩ := hreturns verdict u
  have hfiles := hsame verdict u
  rw [hrun'] at hfiles
  exact ⟨verdict, u', (Program.run_bind_ok hrun _).trans hrun', outcome.before hrel hfiles⟩

theorem configPart_returns (types : BackupType) (dryRun : Bool) (w : World) : ∃ verdict u,
    (configPart backupSteps server settings (sshFor server settings) types dryRun).run
      env.handler w = (.ok verdict, u) := by
  unfold configPart
  split
  · simp only [Program.bind_eq, Program.run_bind, run_tryStep]
    exact ⟨_, _, rfl⟩
  · exact ⟨_, w, rfl⟩

theorem zfsPart_returns (types : BackupType) (dryRun : Bool) (w : World) : ∃ verdict u,
    (zfsPart backupSteps server settings (sshFor server settings) types dryRun).run
      env.handler w = (.ok verdict, u) := by
  unfold zfsPart
  split
  · rw [run_tryStep]
    exact ⟨_, _, rfl⟩
  · exact ⟨_, w, rfl⟩

/-- A verdict on a step that was attempted. -/
def Tried : Except Error Verdict → Prop
  | .ok verdict => verdict.skipped = false
  | .error _ => True

theorem tryStep_tried (step : Prog Unit) : (tryStep step).Ends Tried :=
  Program.Ends.handle (Q := Tried) ((Program.ends_true step).bind (fun _ _ => rfl)
    fun _ _ => trivial) (fun _ h => h) fun _ _ => rfl

theorem configPart_tried (settings : BackupSettings) (dryRun : Bool)
    (hattempts : attemptsConfig types server) :
    (configPart backupSteps server settings (sshFor server settings) types dryRun).Ends Tried := by
  rw [configPart, if_pos hattempts]
  exact (tryStep_tried _).bind (fun verdict hverdict => (Program.ends_true _).bind
    (fun _ _ => hverdict) fun _ _ => trivial) fun _ _ => trivial

theorem zfsPart_tried (settings : BackupSettings) (dryRun : Bool)
    (hattempts : attemptsZfs types server) :
    (zfsPart backupSteps server settings (sshFor server settings) types dryRun).Ends Tried := by
  rw [zfsPart, if_pos hattempts]
  exact tryStep_tried _

theorem configOk_of_tried {r : BackupResult} (herrors : ¬ r.hasErrors)
    (hskipped : r.configSkipped = false) : r.configOk := by
  simp only [BackupResult.hasErrors, hskipped, Bool.not_false, Bool.and_true] at herrors
  by_contra hok
  exact herrors (by simp [hok])

theorem zfsOk_of_tried {r : BackupResult} (herrors : ¬ r.hasErrors)
    (hskipped : r.zfsSkipped = false) : r.zfsOk := by
  simp only [BackupResult.hasErrors, hskipped, Bool.not_false, Bool.and_true] at herrors
  by_contra hok
  exact herrors (by simp [hok])

/-- The verdicts of the two parts are those of the result. -/
theorem run_backupServer {w v u : World} {config zfs : Verdict}
    (hconfig : (configPart backupSteps server settings (sshFor server settings) types dryRun).run
      env.handler (w.record .monotonic (env.act w.log.length .monotonic w.files)) =
        (.ok config, v))
    (hzfs : (zfsPart backupSteps server settings (sshFor server settings) types dryRun).run
      env.handler v = (.ok zfs, u)) :
    ∃ r x, (backupServer backupSteps server (.ok settings) types dryRun).run env.handler w =
        (.ok r, x) ∧ r.server = server.name ∧
      (r.configOk = config.ok ∧ r.configSkipped = config.skipped) ∧
      (r.zfsOk = zfs.ok ∧ r.zfsSkipped = zfs.skipped) ∧ x.files = u.files := by
  simp only [backupServer, Program.ofExcept, Program.bind_eq, Program.bind_ret, Program.run_bind,
    run_monotonic, hconfig, hzfs]
  exact ⟨_, _, rfl, rfl, ⟨rfl, rfl⟩, ⟨rfl, rfl⟩, rfl⟩

end Run

section Server

variable {env : Env} {server : ServerConfig} {settings : BackupSettings} {types : BackupType}
  {dryRun : Bool} {series : Series}

theorem LeavesAlone.sameAt {α : Type} {p : Prog α} (hp : LeavesAlone env server settings series p)
    (w : World) :
    SameAt (series.Holds env.cwd server settings.backupBaseDir) w.files
      (p.run env.handler w).2.files := (hp w).final

theorem ofPart_configPart {outcome : Outcome ((Series.configs .config).Holds env.cwd server
      settings.backupBaseDir)} (types : BackupType) (hserver : '/' ∉ server.name.toList)
    (hpool : Path.Inward server.zfsPool)
    (hstep : outcome.OfStep env dryRun ((Series.configs .config).step server settings dryRun)) :
    outcome.OfPart env (!dryRun && attemptsConfig types server)
      (configPart backupSteps server settings (sshFor server settings) types dryRun) := by
  unfold configPart
  split
  · next hattempts =>
    have hpackages : ∀ verdict : Verdict, LeavesAlone env server settings (.configs .config)
        ((tryStep (backupSteps.packages server settings (sshFor server settings) dryRun)).bind
          fun _ => .ret verdict) := fun verdict =>
      ((stepOf_packages .trivial hserver hpool dryRun).tryStep.leavesAlone (.configs .config)
        (by simp)).bind fun _ => leavesAlone_ret verdict
    rw [hattempts, Bool.and_true]
    refine hstep.tryStep.bind (fun verdict => (hpackages verdict).sameAt) fun verdict w =>
      ⟨((backupSteps.packages server settings (sshFor server settings) dryRun).run
        env.handler w).2, ?_⟩
    rw [Program.bind_eq, Program.run_bind, run_tryStep]
    rfl
  · next hattempts =>
    rw [Bool.not_eq_true] at hattempts
    rw [hattempts, Bool.and_false]
    exact Outcome.ofPart_of_sameAt (fun w => .refl _ w.files) fun w => ⟨_, w, rfl⟩

theorem ofPart_zfsPart {outcome : Outcome (Series.snapshots.Holds env.cwd server
      settings.backupBaseDir)} (types : BackupType)
    (hstep : outcome.OfStep env dryRun (Series.snapshots.step server settings dryRun)) :
    outcome.OfPart env (!dryRun && attemptsZfs types server)
      (zfsPart backupSteps server settings (sshFor server settings) types dryRun) := by
  unfold zfsPart
  split
  · next hattempts =>
    rw [hattempts, Bool.and_true]
    exact hstep.tryStep
  · next hattempts =>
    rw [Bool.not_eq_true] at hattempts
    rw [hattempts, Bool.and_false]
    exact Outcome.ofPart_of_sameAt (fun w => .refl _ w.files) fun w => ⟨_, w, rfl⟩

/-- A run of `backup_server` comes to a result, and has the outcome that the result says. A result
without errors says that what was attempted succeeded. -/
theorem backupServer_outcome {outcome : Outcome (series.Holds env.cwd server
      settings.backupBaseDir)} (types : BackupType) (hserver : '/' ∉ server.name.toList)
    (hpool : Path.Inward server.zfsPool) (harchived : series.Archived)
    (hstep : outcome.OfStep env dryRun (series.step server settings dryRun)) {w : World}
    (hpre : outcome.Pre w.files) :
    ∃ r u, (backupServer backupSteps server (.ok settings) types dryRun).run env.handler w =
        (.ok r, u) ∧ r.server = server.name ∧
      (series.attempted types server → ¬ r.hasErrors → series.okIn r) ∧
      outcome.Rel (!dryRun && series.attempted types server && series.okIn r) w.files u.files := by
  generalize hstart : w.record .monotonic (env.act w.log.length .monotonic w.files) = start
  have hfiles : start.files = w.files := by rw [← hstart]; rfl
  rw [← hfiles] at hpre ⊢
  cases harchived with
  | config =>
    obtain ⟨config, v, hconfig, hrel⟩ :=
      ofPart_configPart types hserver hpool hstep start hpre
    obtain ⟨zfs, u, hzfs⟩ := @zfsPart_returns env server settings types dryRun v
    obtain ⟨r, x, hrun, hname, ⟨hok, hskipped⟩, -, hx⟩ :=
      run_backupServer (hstart ▸ hconfig) hzfs
    have halone : LeavesAlone env server settings (.configs .config)
        (zfsPart backupSteps server settings (sshFor server settings) types dryRun) :=
      (stepOf_zfsPart .trivial hserver hpool types dryRun).leavesAlone _ (by simp)
    have hsame := halone.sameAt v
    rw [hzfs] at hsame
    refine ⟨r, x, hrun, hname, fun hattempts herrors => ?_, ?_⟩
    · have htried := (configPart_tried settings dryRun hattempts).run env.handler start
      rw [hconfig] at htried
      exact configOk_of_tried herrors (hskipped.trans htried)
    · rw [hx, Series.attempted, Series.okIn, hok]
      exact outcome.before hrel hsame
  | snapshots =>
    obtain ⟨config, v, hconfig⟩ := @configPart_returns env server settings types dryRun start
    have halone : LeavesAlone env server settings .snapshots
        (configPart backupSteps server settings (sshFor server settings) types dryRun) :=
      (stepOf_configPart .trivial hserver hpool types dryRun).leavesAlone _ (by simp)
    have hsame := halone.sameAt start
    rw [hconfig] at hsame
    obtain ⟨zfs, u, hzfs, hrel⟩ :=
      ofPart_zfsPart types hstep v (outcome.pre_congr hsame hpre)
    obtain ⟨r, x, hrun, hname, -, ⟨hok, hskipped⟩, hx⟩ :=
      run_backupServer (hstart ▸ hconfig) hzfs
    refine ⟨r, x, hrun, hname, fun hattempts herrors => ?_, ?_⟩
    · have htried := (zfsPart_tried settings dryRun hattempts).run env.handler v
      rw [hzfs] at htried
      exact zfsOk_of_tried herrors (hskipped.trans htried)
    · rw [hx, Series.attempted, Series.okIn, hok]
      exact outcome.after hsame hrel

end Server

/-! ## A finished pool -/

section Pool

variable {servers : List ServerConfig} {settings : BackupSettings} {types : BackupType}
  {dryRun : Bool} {env : Fin servers.length → Env} {i : Fin servers.length} {series : Series}

/-- Whatever its schedule is, a finished pool has for each server the outcome that the server's
result in the summary says. -/
theorem backupAll_outcome (outcome : Outcome (series.Holds (env i).cwd (servers.get i)
      settings.backupBaseDir)) (hservers : ServersApart servers)
    (hcwd : ∀ j, (env j).cwd = (env i).cwd) (harchived : series.Archived)
    (hstep : outcome.OfStep (env i) dryRun (series.step (servers.get i) settings dryRun))
    {files : Files} (hpre : outcome.Pre files) {maxParallel : Int} {summary : BackupSummary}
    {m : Machine servers.length}
    (h : BackupAllEnds backupSteps servers (.ok settings) types maxParallel dryRun env files
      (.ok summary) m) :
    ∃ r ∈ summary.results, r.server = (servers.get i).name ∧
      (series.attempted types (servers.get i) → ¬ r.hasErrors → series.okIn r) ∧
      outcome.Rel (!dryRun && series.attempted types (servers.get i) && series.okIn r) files
        m.files := by
  obtain ⟨dir, -, hdir⟩ := exists_serverDirs hservers.names hservers.distinct
  have hserver : '/' ∉ (servers.get i).name.toList := (hdir i).1 ▸ (dir i).2.2.2
  have hpool : Path.Inward (servers.get i).zfsPool := hservers.pools _ (List.getElem_mem i.isLt)
  obtain ⟨r, u, hrun, hname, hok, hrel⟩ :=
    backupServer_outcome types hserver hpool harchived hstep (w := ⟨files, []⟩) hpre
  have halone : alone servers settings types dryRun env files i = (.ok r, u) := hrun
  have hresults := results_alone hservers hcwd h
  have hfiles := files_alone hservers hcwd h i
  rw [halone] at hfiles
  refine ⟨r, ?_, hname, hok, outcome.before hrel fun q hq => ?_⟩
  · rw [hresults, aloneResults, List.mem_insertionSort]
    refine List.mem_map.mpr ⟨i, List.mem_finRange i, ?_⟩
    rw [aloneResult, halone]
    rfl
  · obtain ⟨rest, rfl⟩ := hq.below (hdir i).1 (hdir i).2 hpool
    rw [FileTree.content?, FileTree.content?, hfiles (dir i) (hdir i).1 rest]

end Pool

end SrvBackup.Specification
