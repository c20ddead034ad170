import SrvBackup.Specification.PoolRuns
import SrvBackup.Specification.Snapshots

/-!
# Dry runs

A dry run looks at the clock and at nothing else. So no schedule of a pool of dry runs changes a
file or a machine, every result is without errors, and the command prints its plan, sends no mail
and succeeds.
-/
namespace SrvBackup.Specification

open SrvBackup.Domain SrvBackup.Effects SrvBackup.Storage SrvBackup.Adapters

/-- A look at the clock. -/
def ReadsClock (o : Op) : Prop := o = .now ∨ o = .monotonic

theorem backupServer_readsClock (server : ServerConfig) (settings : BackupSettings)
    (types : BackupType) :
    (backupServer backupSteps server (.ok settings) types true).Performs (E := Sys) ReadsClock := by
  have hnow : ReadsClock .now := .inl rfl
  refine backupServer_performs (.inr rfl) (fun _ => ⟨?_, ?_⟩) fun _ => ?_
  · exact (performs_now hnow).bind fun _ => Program.performs_ret ()
  · refine (performs_now hnow).bind fun _ => Program.performs_forEach fun dump _ => ?_
    exact Program.performs_ret ()
  · exact (performs_now hnow).bind fun _ => Program.performs_ret ()

/-- The result of a dry run: the parts that are disabled are marked, and nothing has failed. -/
def dryResult (server : ServerConfig) (types : BackupType) (duration : ℚ) : BackupResult where
  server := server.name
  configOk := true
  configSkipped := !attemptsConfig types server && !server.backupConfigfiles
  zfsOk := true
  zfsSkipped := !attemptsZfs types server && !server.backupSnapshot
  durationSeconds := duration

theorem tryStep_ends {step : Prog Unit} (h : step.Ends fun r => r = .ok ()) :
    (tryStep step).Ends fun r => r = .ok {} := by
  have hok : (step.bind fun _ => .ret ({} : Verdict)).Ends fun r => r = .ok {} :=
    h.bind (fun _ _ => rfl) fun _ he => by cases he
  exact hok.handle (fun _ ha => ha) fun _ he => by cases he

theorem backupServer_dryResult (server : ServerConfig) (settings : BackupSettings)
    (types : BackupType) :
    (backupServer backupSteps server (.ok settings) types true).Ends fun r =>
      ∃ duration, r = .ok (dryResult server types duration) := by
  have hconfig : (configPart backupSteps server settings (sshFor server settings) types true).Ends
      fun r => r = .ok
        { skipped := !attemptsConfig types server && !server.backupConfigfiles } := by
    unfold configPart
    split
    · next hattempt =>
      have hstep := @tryStep_ends (backupSteps.config server settings
        (sshFor server settings) true) fun _ => rfl
      refine hstep.bind (fun v hv => ?_) fun _ he => by cases he
      have hpackages := @tryStep_ends (backupSteps.packages server settings
        (sshFor server settings) true) fun _ => rfl
      refine hpackages.bind (fun _ _ => ?_) fun _ he => by cases he
      cases hv
      simp [hattempt, Program.Ends]
    · next hskip => simp [hskip, Program.Ends]
  have hzfs : (zfsPart backupSteps server settings (sshFor server settings) types true).Ends
      fun r => r = .ok { skipped := !attemptsZfs types server && !server.backupSnapshot } := by
    unfold zfsPart
    split
    · next hattempt =>
      have hstep := @tryStep_ends (backupSteps.zfs server settings
        (sshFor server settings) true) fun _ => rfl
      simpa [hattempt] using hstep
    · next hskip => simp [hskip, Program.Ends]
  intro start
  refine hconfig.bind (fun v hv => ?_) fun _ he => by cases he
  refine hzfs.bind (fun v' hv' => fun stop => ?_) fun _ he => by cases he
  cases hv
  cases hv'
  exact ⟨_, rfl⟩

/-! ## A pool of dry runs -/

section Pool

variable {H : Type} [DecidableEq H] {machine : Option String → H} {servers : List ServerConfig}
  {settings : BackupSettings} {types : BackupType} {width : Nat}

/-- In every pool of dry runs that is reached, on whatever machines and over whatever links, no
machine and no file has changed and every operation was a look at the clock; in a finished one
every result is without errors. -/
theorem dryRun_changes_nothing (link : Fin servers.length → Nat → Delivery)
    (env : Fin servers.length → Env) (hosts : H → Host) (files : Files)
    {c : Pool Sys Error BackupResult (Site H servers.length) servers.length}
    (hc : Pool.Reaches (siteHandler machine link env) width
      (Pool.initial (backupPool backupSteps servers (.ok settings) types true)
        ⟨hosts, ⟨files, fun _ => []⟩⟩) c) :
    (c.shared.hosts = hosts ∧ c.shared.here.files = files ∧
      ∀ i, ∀ ev ∈ c.shared.here.log i, ReadsClock ev.op) ∧
    (c.Complete → ∀ i, ∃ duration,
      (c.thread i).end? = some (.ok (dryResult (servers.get i) types duration)) ∧
        ¬ (dryResult (servers.get i) types duration).hasErrors) := by
  constructor
  · refine (hc.preserves_shared (P := fun _ => ReadsClock) (J := fun site : Site H servers.length =>
      site.hosts = hosts ∧ site.here.files = files ∧
        ∀ i, ∀ ev ∈ site.here.log i, ReadsClock ev.op) ?_
      (fun i => backupServer_readsClock (servers.get i) settings types)
      ⟨rfl, rfl, fun i ev hev => by cases hev⟩).2
    rintro i o site ho ⟨hhosts, hfiles, hlogs⟩
    have hlog : ∀ j, ∀ ev ∈ (siteHandler machine link env i o site).2.here.log j,
        ReadsClock ev.op := by
      intro j ev hev
      obtain ⟨answer, hlog⟩ := siteHandler_log machine link env i site o
      rw [hlog] at hev
      by_cases hji : j = i
      · subst hji
        rw [Function.update_self] at hev
        rcases List.mem_cons.mp hev with rfl | hev
        · exact ho
        · exact hlogs j ev hev
      · rw [Function.update_of_ne hji] at hev
        exact hlogs j ev hev
    rcases ho with rfl | rfl
    · exact ⟨hhosts, hfiles, hlog⟩
    · exact ⟨hhosts, hfiles, hlog⟩
  · intro hdone i
    obtain ⟨r, hr⟩ := Program.exists_end? (hdone.2 i)
    obtain ⟨duration, rfl⟩ := (hc.preserves_ends
      (fun i => backupServer_dryResult (servers.get i) settings types) i).of_end? hr
    exact ⟨duration, hr, by simp [dryResult, BackupResult.hasErrors]⟩

end Pool

/-- Both servers are started, then their operations alternate. -/
def drySchedule : List (Pool.Move 2) :=
  .start :: .start :: (List.replicate 5 [.act ⟨0, by decide⟩, .act ⟨1, by decide⟩]).flatten

def dryPool : Option (Pool Sys Error BackupResult (Site (Option String) twinServers.length)
    twinServers.length) :=
  (Pool.initial (backupPool backupSteps twinServers (.ok sampleSettings) .all true)
    ⟨twinHosts, ⟨sampleFiles, fun _ => []⟩⟩).follow
      (siteHandler id (fun _ _ => .answered) fun _ => sampleEnv (.ok ⟨0, [31], ""⟩)) 2 drySchedule

theorem dryRun_changes_nothing_sample :
    ∃ c ∈ dryPool, c.Complete ∧ c.shared.hosts = twinHosts ∧ c.shared.here.files = sampleFiles := by
  have hpool : ∃ c ∈ dryPool, c.Complete := by decide +kernel
  obtain ⟨c, hc, hdone⟩ := hpool
  obtain ⟨⟨hhosts, hfiles, -⟩, -⟩ := dryRun_changes_nothing (fun _ _ => .answered)
    (fun _ => sampleEnv (.ok ⟨0, [31], ""⟩)) twinHosts sampleFiles (Pool.reaches_of_follow hc)
  exact ⟨c, hc, hdone, hhosts, hfiles⟩

/-! ## The command -/

/-- With `--dry-run` the command prints its plan for every server that is selected and the report,
sends no message, leaves every file as it was, and succeeds. -/
theorem backupCommand_dryRun {MailConfig : Type} (services : MailServices MailConfig)
    {configured servers : List ServerConfig} {name : Option String}
    (hselect : selectServers configured name = servers) (hne : servers ≠ [])
    {settings : BackupSettings} (types : BackupType) (hpos : 0 < settings.maxParallel)
    {env : Fin servers.length → Env} {files : Files} {r : Except Error BackupSummary}
    {m : Machine servers.length}
    (h : BackupAllEnds backupSteps servers (.ok settings) types settings.maxParallel true env
      files r m) :
    m.files = files ∧ ∃ (log : List (CommandOp MailConfig)) (summary : BackupSummary),
      (backupCommand configured name types true (.ok settings)).run
        (commandHandler (fun _ _ => r) services) [] = (.ok (), log) ∧
      (summary.results.map (·.server)).Perm (servers.map (·.name)) ∧
      sentMessages log = [] ∧
      (printed log).reverse =
        ("[DRY-RUN] Would backup " ++ toString servers.length ++ " server(s):") ::
          servers.map dryRunLine ++ ["", buildSummaryReport summary] := by
  cases h with
  | refused hneg => omega
  | @returned c ends order duration _ hc hdone hends horder =>
    have hsummary := BackupAllEnds.returned duration hpos hc hdone hends horder
    refine ⟨?_, ?_⟩
    · refine (hc.preserves_shared (P := fun _ => ReadsClock)
        (J := fun m : Machine servers.length => m.files = files) ?_
        (fun i => backupServer_readsClock (servers.get i) settings types) rfl).2
      rintro i o m (rfl | rfl) hm <;> exact hm
    have hok : (backupAll (order.map fun i => (servers.get i, ends i)) duration).allOk := by
      have hdry : ∀ i, ∃ d, ends i = .ok (dryResult (servers.get i) types d) := fun i =>
        (hc.preserves_ends (fun i => backupServer_dryResult (servers.get i) settings types)
          i).of_end? (hends i)
      simp only [BackupSummary.allOk, backupAll, List.all_eq_true, List.mem_insertionSort,
        List.mem_map]
      rintro _ ⟨_, ⟨i, -, rfl⟩, rfl⟩
      obtain ⟨d, hd⟩ := hdry i
      simp [hd, futureResult, dryResult, BackupResult.hasErrors]
    generalize backupAll (order.map fun i => (servers.get i, ends i)) duration = summary
      at hsummary hok ⊢
    refine ⟨commandLog services servers settings types true summary, summary, ?_,
      servers_perm hsummary, ?_, ?_⟩
    · rw [run_backupCommand (hselect ▸ hne) rfl, if_pos hok, List.append_nil, hselect]
    · rw [sentMessages_commandLog]
      simp
    · exact printed_commandLog_dryRun _ _ _ _ _

theorem backupCommand_dryRun_sample :
    ∃ (r : Except Error BackupSummary) (log : List (CommandOp Unit)),
      (backupCommand apartServers (some "px02") .all true (.ok sampleSettings)).run
        (commandHandler (fun _ _ => r) ⟨.ok (), fun _ _ _ => .ok ()⟩) [] = (.ok (), log) ∧
      sentMessages log = [] := by
  have hstart : Pool.Reaches
      (poolHandler fun _ => sampleEnv (.ok ⟨0, [31], ""⟩)) (2 : Int).toNat
      (backupStart backupSteps (selectServers apartServers (some "px02")) (.ok sampleSettings) .all
        true sampleFiles) _ := .refl
  obtain ⟨d, summary, -, hends, -⟩ := exists_backupAllEnds (show (0 : Int) < 2 by decide) hstart
  obtain ⟨-, log, _, hrun, -, hsent, -⟩ := backupCommand_dryRun
    (⟨.ok (), fun _ _ _ => .ok ()⟩ : MailServices Unit) rfl (by decide) .all
    (show 0 < sampleSettings.maxParallel by decide) hends
  exact ⟨_, log, hrun, hsent⟩

end SrvBackup.Specification
