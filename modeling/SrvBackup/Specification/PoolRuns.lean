import SrvBackup.Adapters.BackupCommand
import SrvBackup.Specification.Isolation

/-!
# A pool and its runs one by one

With servers that are apart, a pool does nothing that its runs would not do by themselves: every
finished pool has the results, the operations and the directories of the runs that start from
the same tree with nobody else around (`pool_runs_alone`). So the summary of `backup_all` and the
exit code of the command are functions of those runs, whatever the number of workers, the schedule
and the order in which the futures complete.
-/
namespace SrvBackup.Specification

open SrvBackup.Domain SrvBackup.Effects SrvBackup.Storage SrvBackup.Adapters

/-- The names of the servers are different path components, and no pool leads out of the
directory of its server. -/
structure ServersApart (servers : List ServerConfig) : Prop where
  names : ∀ s ∈ servers, SingleComponent s.name
  distinct : (servers.map (·.name)).Nodup
  pools : ∀ s ∈ servers, Path.Inward s.zfsPool

section Alone

variable (servers : List ServerConfig) (settings : BackupSettings) (types : BackupType)
  (dryRun : Bool) (env : Fin servers.length → Env) (files : Files) (i : Fin servers.length)

/-- The run of server `i` by itself. -/
def alone : Except Error BackupResult × World :=
  (env i).exec (backupPool backupSteps servers (.ok settings) types dryRun i) files

/-- What `backup_all` makes of that run. -/
def aloneResult : BackupResult :=
  futureResult (servers.get i) (alone servers settings types dryRun env files i).1

/-- The results of all runs, each by itself, sorted by server. -/
def aloneResults : List BackupResult :=
  ((List.finRange servers.length).map (aloneResult servers settings types dryRun env files)
    ).insertionSort fun r r' => r.server ≤ r'.server

end Alone

section Runs

variable {servers : List ServerConfig} {settings : BackupSettings} {types : BackupType}
  {dryRun : Bool} {cwd : List Component} {env : Fin servers.length → Env} {files : Files}

/-- Without the other runs, a run on the machine is the run by itself. -/
theorem run_poolHandler {α : Type} {n : Nat} (env : Fin n → Env) (i : Fin n) (p : Prog α)
    (m : Machine n) :
    (p.run (poolHandler env i) m).1 = (p.run (env i).handler (m.world i)).1 ∧
      (p.run (poolHandler env i) m).2.world i = (p.run (env i).handler (m.world i)).2 :=
  (Program.performs_true p).run_view (v := fun m : Machine n => m.world i)
    (fun _ m _ => ⟨rfl, Machine.world_put_self m i _⟩) m

/-- Every run of a finished pool has come to the end, has performed the operations and has left
the directory that it comes to, performs and leaves by itself. -/
theorem pool_runs_alone (hservers : ServersApart servers) (hcwd : ∀ i, (env i).cwd = cwd)
    {width : Nat} {c : Pool Sys Error BackupResult (Machine servers.length) servers.length}
    (hc : PoolReaches servers settings types dryRun env files width c) (hdone : c.Complete)
    (i : Fin servers.length) :
    (c.thread i).end? = some (alone servers settings types dryRun env files i).1 ∧
      c.shared.log i = (alone servers settings types dryRun env files i).2.log ∧
      ∀ x : Component, x.val = (servers.get i).name → ∀ rest,
        c.shared.files.get? (settings.backupBaseDir.locate cwd ++ x :: rest) =
          (alone servers settings types dryRun env files i).2.files.get?
            (settings.backupBaseDir.locate cwd ++ x :: rest) := by
  obtain ⟨dir, hinj, hdir⟩ := exists_serverDirs hservers.names hservers.distinct
  have hconfined : ∀ i, (backupPool backupSteps servers (.ok settings) types dryRun i).Performs
      (E := Sys) (Confined cwd (settings.backupBaseDir.locate cwd ++ [dir i])) := fun i =>
    backupServer_confined (hdir i).1 (hdir i).2 (hservers.pools _ (List.getElem_mem _)) settings
      types dryRun
  have iso := pool_isolated (settings.backupBaseDir.locate cwd) hcwd hinj
  obtain ⟨hend, hview⟩ := iso.end_final hc hconfined hdone i
  obtain ⟨hsolo, hworld⟩ := run_poolHandler env i
    (backupPool backupSteps servers (.ok settings) types dryRun i) ⟨files, fun _ => []⟩
  refine ⟨hend.trans (congrArg some hsolo), ?_, fun x hx rest => ?_⟩
  · have hlog := congrArg World.log hworld
    exact (congrArg World.log hview).trans hlog
  · obtain rfl : x = dir i := Subtype.ext (hx.trans (hdir i).1.symm)
    have hget := FileTree.get?_eq_of_restrict_eq (congrArg World.files hview)
      ((ownPart_covers (settings.backupBaseDir.locate cwd) (dir i)).below
        (settings.backupBaseDir.locate cwd ++ dir i :: rest) (by simp))
    have hfiles := congrArg World.files hworld
    exact hget.trans (congrArg (fun t : Files => t.get? _) hfiles)

/-- Every result bears the name of its server. -/
theorem server_futureResult (steps : Steps) (server : ServerConfig)
    (config : Except Error BackupSettings) (types : BackupType) (dryRun : Bool) :
    (backupServer steps server config types dryRun).Ends fun r =>
      (futureResult server r).server = server.name := by
  have hafter : ∀ {α : Type} (p : Prog α) {f : α → Prog BackupResult},
      (∀ a, (f a).Ends fun r => (futureResult server r).server = server.name) →
      (p.bind f).Ends fun r => (futureResult server r).server = server.name := fun p _ hf =>
    (Program.ends_true p).bind (fun a _ => hf a) fun _ _ => rfl
  exact hafter _ fun _ => hafter _ fun _ => hafter _ fun _ => hafter _ fun _ =>
    hafter _ fun _ => rfl

@[simp] theorem server_aloneResult (i : Fin servers.length) :
    (aloneResult servers settings types dryRun env files i).server = (servers.get i).name :=
  (server_futureResult backupSteps (servers.get i) (.ok settings) types dryRun).run _ _

/-- Results that bear different names have one sorted order. -/
theorem insertionSort_eq_of_perm {rs rs' : List BackupResult} (hperm : rs.Perm rs')
    (hnodup : (rs.map (·.server)).Nodup) :
    (rs.insertionSort fun r r' => r.server ≤ r'.server) =
      rs'.insertionSort fun r r' => r.server ≤ r'.server := by
  have hsorted : ∀ l : List BackupResult, (l.map (·.server)).Nodup →
      (l.insertionSort fun r r' => r.server ≤ r'.server).Pairwise
        fun r r' => r.server < r'.server := by
    intro l hl
    have hnames := ((List.perm_insertionSort (fun r r' : BackupResult => r.server ≤ r'.server)
      l).map (·.server)).nodup_iff.mpr hl
    exact ((List.pairwise_insertionSort _ l).and (List.pairwise_map.mp hnames)).imp
      fun h => lt_of_le_of_ne h.1 h.2
  refine (((List.perm_insertionSort _ rs).trans hperm).trans
    (List.perm_insertionSort _ rs').symm).eq_of_pairwise
      (fun _ _ _ _ h h' => absurd (h.trans h') (lt_irrefl _)) (hsorted rs hnodup) (hsorted rs' ?_)
  exact (hperm.map _).nodup_iff.mp hnodup

/-- The summary has the results of the runs by themselves. -/
theorem results_alone (hservers : ServersApart servers) (hcwd : ∀ i, (env i).cwd = cwd)
    {maxParallel : Int} {summary : BackupSummary} {m : Machine servers.length}
    (h : BackupAllEnds backupSteps servers (.ok settings) types maxParallel dryRun env files
      (.ok summary) m) :
    summary.results = aloneResults servers settings types dryRun env files := by
  cases h with
  | @returned c ends order _ _ hc hdone hends horder =>
    have hresult : ∀ i, futureResult (servers.get i) (ends i) =
        aloneResult servers settings types dryRun env files i := by
      intro i
      have hend := (pool_runs_alone hservers hcwd hc hdone i).1
      rw [hends i] at hend
      rw [aloneResult, Option.some.inj hend]
    have hperm : (order.map (aloneResult servers settings types dryRun env files)).Perm
        ((List.finRange servers.length).map
          (aloneResult servers settings types dryRun env files)) := horder.map _
    have hmap : (order.map fun i => (servers.get i, ends i)).map
        (fun future => futureResult future.1 future.2) =
          order.map (aloneResult servers settings types dryRun env files) := by
      rw [List.map_map]
      exact List.map_congr_left fun i _ => hresult i
    simp only [backupAll, hmap]
    refine insertionSort_eq_of_perm hperm ?_
    have hnames : (BackupResult.server ∘ aloneResult servers settings types dryRun env files) =
        (·.name) ∘ servers.get := funext server_aloneResult
    rw [(hperm.map _).nodup_iff, List.map_map, hnames, ← List.map_map, List.map_get_finRange]
    exact hservers.distinct

/-- The directory of each server is the one that its run leaves by itself. -/
theorem files_alone (hservers : ServersApart servers) (hcwd : ∀ i, (env i).cwd = cwd)
    {maxParallel : Int} {summary : BackupSummary} {m : Machine servers.length}
    (h : BackupAllEnds backupSteps servers (.ok settings) types maxParallel dryRun env files
      (.ok summary) m) (i : Fin servers.length) (x : Component)
    (hx : x.val = (servers.get i).name) (rest : List Component) :
    m.files.get? (settings.backupBaseDir.locate cwd ++ x :: rest) =
      (alone servers settings types dryRun env files i).2.files.get?
        (settings.backupBaseDir.locate cwd ++ x :: rest) := by
  cases h with
  | returned _ _ hc hdone _ _ => exact (pool_runs_alone hservers hcwd hc hdone i).2.2 x hx rest

/-- The whole is a success if each run by itself is. -/
theorem allOk_alone (hservers : ServersApart servers) (hcwd : ∀ i, (env i).cwd = cwd)
    {maxParallel : Int} {summary : BackupSummary} {m : Machine servers.length}
    (h : BackupAllEnds backupSteps servers (.ok settings) types maxParallel dryRun env files
      (.ok summary) m) :
    (summary.allOk = true) ↔
      ∀ i, ¬ (aloneResult servers settings types dryRun env files i).hasErrors := by
  rw [BackupSummary.allOk, results_alone hservers hcwd h]
  simp [aloneResults]

end Runs

/-! ## Coming to an end -/

section Ending

variable {servers : List ServerConfig} {config : Except Error BackupSettings}
  {types : BackupType} {dryRun : Bool} {maxParallel : Int} {env : Fin servers.length → Env}
  {files : Files}

/-- A summary has one result for each server. -/
theorem servers_perm {steps : Steps} {summary : BackupSummary} {m : Machine servers.length}
    (h : BackupAllEnds steps servers config types maxParallel dryRun env files (.ok summary) m) :
    (summary.results.map (·.server)).Perm (servers.map (·.name)) := by
  cases h with
  | @returned c ends order _ _ hc hdone hends horder =>
    have hnamed : ∀ i, (futureResult (servers.get i) (ends i)).server = (servers.get i).name :=
      fun i => (hc.preserves_ends (fun i => server_futureResult steps (servers.get i) config types
        dryRun) i).of_end? (hends i)
    refine ((List.perm_insertionSort _ _).map _).trans ?_
    have hget : ((·.server) ∘ fun future : ServerConfig × Except Error BackupResult =>
        futureResult future.1 future.2) ∘ (fun i => (servers.get i, ends i)) =
          (·.name) ∘ servers.get := funext hnamed
    rw [List.map_map, List.map_map, hget]
    refine (horder.map _).trans (.of_eq ?_)
    rw [← List.map_map, List.map_get_finRange]

/-- From every pool that is reached there is a way to a summary. -/
theorem exists_backupAllEnds {steps : Steps} (hpos : 0 < maxParallel)
    {c : Pool Sys Error BackupResult (Machine servers.length) servers.length}
    (hc : Pool.Reaches (poolHandler env) maxParallel.toNat
      (backupStart steps servers config types dryRun files) c) :
    ∃ d summary, Pool.Reaches (poolHandler env) maxParallel.toNat c d ∧
      BackupAllEnds steps servers config types maxParallel dryRun env files (.ok summary)
        d.shared ∧
      (summary.results.map (·.server)).Perm (servers.map (·.name)) := by
  have hworker : 0 < maxParallel.toNat := by omega
  obtain ⟨d, hcd, hdone⟩ := Pool.exists_complete (h := poolHandler env) hworker
    (hc.started_le (Nat.zero_le _))
  choose ends hends using fun i => Program.exists_end? (hdone.2 i)
  have hsummary := BackupAllEnds.returned 0 hpos (hc.trans hcd) hdone hends (.refl _)
  exact ⟨d, _, hcd, hsummary, servers_perm hsummary⟩

end Ending

/-! Two servers that are apart, with tar and ZFS commands that succeed. -/

def apartServers : List ServerConfig := [sampleServer, { sampleServer with name := "px02" }]

theorem serversApart_sample : ServersApart apartServers := ⟨by decide, by decide, by decide⟩

def sampleEnvs (_ : Fin apartServers.length) : Env := sampleEnv (.ok ⟨0, [31], ""⟩)

/-! ## What a pool comes to -/

section Outcome

variable {servers : List ServerConfig} {settings : BackupSettings} {types : BackupType}
  {dryRun : Bool} {cwd : List Component} {env : Fin servers.length → Env} {files : Files}

/-- Whatever the number of workers, the schedule and the order of completion: the summary of
`backup_all` has the results of the runs by themselves, each server's directory is the one that
its run leaves by itself, and next to the servers' directories nothing changes. -/
theorem backupAll_alone (hservers : ServersApart servers) (hcwd : ∀ i, (env i).cwd = cwd)
    {maxParallel : Int} {summary : BackupSummary} {m : Machine servers.length}
    (h : BackupAllEnds backupSteps servers (.ok settings) types maxParallel dryRun env files
      (.ok summary) m) :
    summary.results = aloneResults servers settings types dryRun env files ∧
      (∀ i, m.log i = (alone servers settings types dryRun env files i).2.log ∧
        ∀ x : Component, x.val = (servers.get i).name → ∀ rest,
          m.files.get? (settings.backupBaseDir.locate cwd ++ x :: rest) =
            (alone servers settings types dryRun env files i).2.files.get?
              (settings.backupBaseDir.locate cwd ++ x :: rest)) ∧
      ∀ x : Component, x.val ∉ servers.map (·.name) → ∀ rest,
        m.files.get? (settings.backupBaseDir.locate cwd ++ x :: rest) =
          files.get? (settings.backupBaseDir.locate cwd ++ x :: rest) := by
  refine ⟨results_alone hservers hcwd h, ?_⟩
  cases h with
  | @returned c ends order _ _ hc hdone hends horder =>
    refine ⟨fun i => (pool_runs_alone hservers hcwd hc hdone i).2, fun x hx => ?_⟩
    obtain ⟨dir, hinj, hdir⟩ := exists_serverDirs hservers.names hservers.distinct
    have hconfined : ∀ i, (backupPool backupSteps servers (.ok settings) types dryRun i).Performs
        (E := Sys) (Confined cwd (settings.backupBaseDir.locate cwd ++ [dir i])) := fun i =>
      backupServer_confined (hdir i).1 (hdir i).2 (hservers.pools _ (List.getElem_mem _)) settings
        types dryRun
    refine PoolReaches.get?_of_foreign hc hcwd hconfined fun i hi => hx ?_
    rw [← hi, (hdir i).1]
    exact List.mem_map_of_mem (List.getElem_mem _)

/-- The exit code and the mail of the command are functions of the runs by themselves: it succeeds
exactly if each of them does, and the one message, which no dry run sends, is the report that was
printed. -/
theorem backupCommand_alone {MailConfig : Type} (services : MailServices MailConfig)
    {configured : List ServerConfig} {name : Option String}
    (hselect : selectServers configured name = servers) (hne : servers ≠ [])
    (hservers : ServersApart servers) (hcwd : ∀ i, (env i).cwd = cwd)
    (hpos : 0 < settings.maxParallel) {r : Except Error BackupSummary}
    {m : Machine servers.length}
    (h : BackupAllEnds backupSteps servers (.ok settings) types settings.maxParallel dryRun env
      files r m) :
    ∃ (log : List (CommandOp MailConfig)) (duration : ℚ),
      (backupCommand configured name types dryRun (.ok settings)).run
          (commandHandler (fun _ _ => r) services) [] =
        (if ∀ i, ¬ (aloneResult servers settings types dryRun env files i).hasErrors then .ok ()
          else .error (.exit .generalError), log) ∧
      sentMessages log =
        (if dryRun ∨ ¬ services.loadEmailConfigFromDict.isOk then []
          else [(buildSummarySubject
              ⟨aloneResults servers settings types dryRun env files, duration⟩,
            buildSummaryReport
              ⟨aloneResults servers settings types dryRun env files, duration⟩)]) ∧
      (printed log).head? =
        some (buildSummaryReport
          ⟨aloneResults servers settings types dryRun env files, duration⟩) := by
  cases r with
  | error e =>
    cases h
    omega
  | ok summary =>
    have hok := allOk_alone hservers hcwd h
    have hresults := results_alone hservers hcwd h
    obtain ⟨results, duration⟩ := summary
    simp only at hresults
    subst hresults
    rw [run_backupCommand (hselect ▸ hne) rfl]
    refine ⟨_, duration, Prod.ext (if_congr hok rfl rfl) (List.append_nil _), ?_, ?_⟩
    · exact sentMessages_commandLog _ _ _ _ _ _
    · exact printed_commandLog _ _ _ _ _ _

end Outcome

theorem exists_apartBackup : ∃ summary m, BackupAllEnds backupSteps apartServers
    (.ok sampleSettings) .all 2 false sampleEnvs sampleFiles (.ok summary) m := by
  have hstart : Pool.Reaches (poolHandler sampleEnvs) (2 : Int).toNat
      (backupStart backupSteps apartServers (.ok sampleSettings) .all false sampleFiles) _ := .refl
  obtain ⟨d, summary, -, hends, -⟩ := exists_backupAllEnds (show (0 : Int) < 2 by decide) hstart
  exact ⟨summary, _, hends⟩

theorem backupAll_alone_sample : ∃ summary m, BackupAllEnds backupSteps apartServers
      (.ok sampleSettings) .all 2 false sampleEnvs sampleFiles (.ok summary) m ∧
    summary.results =
      aloneResults apartServers sampleSettings .all false sampleEnvs sampleFiles := by
  obtain ⟨summary, m, hends⟩ := exists_apartBackup
  exact ⟨summary, m, hends,
    (backupAll_alone serversApart_sample (fun _ => show _ = [] from rfl) hends).1⟩

theorem backupCommand_alone_sample :
    ∃ r m, BackupAllEnds backupSteps apartServers (.ok sampleSettings) .all 2 false sampleEnvs
        sampleFiles r m ∧
      ∃ log, (backupCommand apartServers none .all false (.ok sampleSettings)).run
          (commandHandler (fun _ _ => r) ⟨.ok (), fun _ _ _ => .error (.other "smtp")⟩) [] =
        (.ok (), log) ∧ (sentMessages log).length = 1 := by
  obtain ⟨summary, m, hends⟩ := exists_apartBackup
  refine ⟨_, _, hends, ?_⟩
  have hselect : selectServers apartServers none = apartServers := rfl
  obtain ⟨log, duration, hrun, hsent, -⟩ := backupCommand_alone
    (⟨.ok (), fun _ _ _ => .error (.other "smtp")⟩ : MailServices Unit) hselect (by decide)
    serversApart_sample (fun _ => show _ = [] from rfl) (by decide) hends
  rw [if_pos (by decide +kernel)] at hrun
  exact ⟨log, hrun, by rw [hsent]; rfl⟩

end SrvBackup.Specification
