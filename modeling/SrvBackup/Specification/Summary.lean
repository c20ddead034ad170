import SrvBackup.Adapters.Cli
import SrvBackup.Effects.Interleaving
import SrvBackup.Specification.Isolation

/-!
# The verdict of a pool

`BackupRun` is a run of `backup_all` in which every step of every server has a given outcome:
a pool that has finished, under any schedule, and an order in which its futures completed. The
verdicts of its summary, of the subject and of the exit code are functions of the outcomes.
-/
namespace SrvBackup.Specification

open SrvBackup.Domain SrvBackup.Effects SrvBackup.Adapters

/-- How the three steps of a server end. -/
structure StepOutcomes where
  config : Except Error Unit
  packages : Except Error Unit
  zfs : Except Error Unit

/-- Steps that end that way. -/
def outcomeSteps (o : StepOutcomes) : Steps where
  config _ _ _ _ := Program.ofExcept o.config
  packages _ _ _ _ := Program.ofExcept o.packages
  zfs _ _ _ _ := Program.ofExcept o.zfs

/-- The call of `backup_server` raises, or an attempted step does; the package lists do not
count. -/
def ServerFails (config : Except Error BackupSettings) (types : BackupType) (server : ServerConfig)
    (o : StepOutcomes) : Prop :=
  (∃ e, config = .error e) ∨ (attemptsConfig types server ∧ ∃ e, o.config = .error e) ∨
    (attemptsZfs types server ∧ ∃ e, o.zfs = .error e)

structure BackupRun (servers : List ServerConfig) (config : Except Error BackupSettings)
    (types : BackupType) (dryRun : Bool) (outcome : Fin servers.length → StepOutcomes) where
  State : Type
  handler : Fin servers.length → Handler Sys State
  start : State
  width : Nat
  final : Pool Sys Error BackupResult State servers.length
  reached : Pool.Reaches handler width
    (Pool.initial
      (fun i => backupServer (outcomeSteps (outcome i)) (servers.get i) config types dryRun) start)
    final
  complete : final.Complete
  /-- the futures in the order in which they completed -/
  order : List (Fin servers.length)
  order_perm : order.Perm (List.finRange servers.length)
  totalDuration : ℚ

def sansDuration (r : BackupResult) : BackupResult := { r with durationSeconds := 0 }

@[simp] theorem server_sansDuration (r : BackupResult) : (sansDuration r).server = r.server := rfl

@[simp] theorem hasErrors_sansDuration (r : BackupResult) :
    (sansDuration r).hasErrors = r.hasErrors := rfl

/-- What an attempted step with this outcome notes down. -/
def verdictOf (attempted : Bool) (enabled : Bool) (outcome : Except Error Unit) : Verdict :=
  if attempted then
    match outcome with
    | .ok _ => {}
    | .error e => { ok := false, error := e.str }
  else { skipped := !enabled }

/-- The result of a server, without its duration. -/
def expectedResult (config : Except Error BackupSettings) (types : BackupType)
    (server : ServerConfig) (o : StepOutcomes) : BackupResult :=
  match config with
  | .error e => futureResult server (.error e)
  | .ok _ =>
    let config := verdictOf (attemptsConfig types server) server.backupConfigfiles o.config
    let zfs := verdictOf (attemptsZfs types server) server.backupSnapshot o.zfs
    { server := server.name
      configOk := config.ok, configError := config.error, configSkipped := config.skipped
      zfsOk := zfs.ok, zfsError := zfs.error, zfsSkipped := zfs.skipped }

theorem tryStep_ofExcept (r : Except Error Unit) :
    tryStep (Program.ofExcept r) = .ret (verdictOf true true r) := by
  cases r <;> rfl

theorem configPart_outcome (o : StepOutcomes) (server : ServerConfig) (settings : BackupSettings)
    (ssh : Ssh) (types : BackupType) (dryRun : Bool) :
    configPart (outcomeSteps o) server settings ssh types dryRun =
      .ret (verdictOf (attemptsConfig types server) server.backupConfigfiles o.config) := by
  unfold configPart
  split
  · next h => simp [outcomeSteps, tryStep_ofExcept, h, verdictOf]
  · next h => simp [verdictOf, h]

theorem zfsPart_outcome (o : StepOutcomes) (server : ServerConfig) (settings : BackupSettings)
    (ssh : Ssh) (types : BackupType) (dryRun : Bool) :
    zfsPart (outcomeSteps o) server settings ssh types dryRun =
      .ret (verdictOf (attemptsZfs types server) server.backupSnapshot o.zfs) := by
  unfold zfsPart
  split
  · next h => simp [outcomeSteps, tryStep_ofExcept, h, verdictOf]
  · next h => simp [verdictOf, h]

/-- Whatever the clock shows, the call ends in the expected result. -/
theorem backupServer_ends (server : ServerConfig) (config : Except Error BackupSettings)
    (types : BackupType) (dryRun : Bool) (o : StepOutcomes) :
    (backupServer (outcomeSteps o) server config types dryRun).Ends fun r =>
      sansDuration (futureResult server r) = expectedResult config types server o := by
  cases config with
  | error e => rfl
  | ok settings =>
    have hprogram : backupServer (outcomeSteps o) server (.ok settings) types dryRun =
        monotonic.bind fun start => monotonic.bind fun stop => .ret { expectedResult (.ok settings)
          types server o with durationSeconds := stop - start } := by
      simp only [backupServer, configPart_outcome, zfsPart_outcome, Program.bind_eq,
        Program.bind_ret, Program.ofExcept]
      rfl
    rw [hprogram]
    exact fun _ _ => rfl

theorem hasErrors_expectedResult (config : Except Error BackupSettings) (types : BackupType)
    (server : ServerConfig) (o : StepOutcomes) :
    (expectedResult config types server o).hasErrors ↔ ServerFails config types server o := by
  cases config with
  | error e => simp [expectedResult, futureResult, BackupResult.hasErrors, ServerFails]
  | ok settings =>
    have hverdict : ∀ (attempted enabled : Bool) (r : Except Error Unit),
        (!(verdictOf attempted enabled r).ok && !(verdictOf attempted enabled r).skipped) = true ↔
          attempted ∧ ∃ e, r = .error e := by
      rintro (_ | _) enabled (e | _) <;> simp [verdictOf]
    simp only [expectedResult, BackupResult.hasErrors, Bool.or_eq_true, hverdict, ServerFails,
      reduceCtorEq, exists_false, false_or]

namespace BackupRun

variable {servers : List ServerConfig} {config : Except Error BackupSettings}
  {types : BackupType} {dryRun : Bool} {outcome : Fin servers.length → StepOutcomes}
  (run : BackupRun servers config types dryRun outcome)

/-- What `backup_all` gets from the future of server `i`. -/
def future (i : Fin servers.length) : Option (ServerConfig × Except Error BackupResult) :=
  (run.final.thread i).end?.map fun r => (servers.get i, r)

def summary : BackupSummary := backupAll (run.order.filterMap run.future) run.totalDuration

/-- The result that is collected for server `i`. -/
def result (i : Fin servers.length) : BackupResult :=
  (run.future i).elim { server := (servers.get i).name } fun f => futureResult f.1 f.2

theorem sansDuration_result (i : Fin servers.length) :
    sansDuration (run.result i) = expectedResult config types (servers.get i) (outcome i) := by
  obtain ⟨r, hr⟩ := Program.exists_end? (run.complete.2 i)
  have hends := run.reached.preserves_ends
    (fun i => backupServer_ends (servers.get i) config types dryRun (outcome i)) i
  simpa [result, future, hr] using hends.of_end? hr

@[simp] theorem server_result (i : Fin servers.length) :
    (run.result i).server = (servers.get i).name := by
  rw [← server_sansDuration, run.sansDuration_result]
  cases config <;> rfl

theorem hasErrors_result (i : Fin servers.length) :
    (run.result i).hasErrors ↔ ServerFails config types (servers.get i) (outcome i) := by
  rw [← hasErrors_sansDuration, run.sansDuration_result, hasErrors_expectedResult]

/-- Every result is collected once, and they are sorted by server. -/
theorem results_perm :
    run.summary.results.Perm ((List.finRange servers.length).map run.result) := by
  refine (List.perm_insertionSort _ _).trans ?_
  have hfuture : run.order.filterMap run.future =
      run.order.map fun i => (run.future i).getD (servers.get i, .error (.other "")) := by
    refine List.filterMap_eq_map_iff_forall_eq_some.mpr fun i _ => ?_
    obtain ⟨r, hr⟩ := Program.exists_end? (run.complete.2 i)
    simp [future, hr]
  rw [hfuture, List.map_map]
  have hresult : ((fun f : ServerConfig × Except Error BackupResult => futureResult f.1 f.2) ∘
      fun i => (run.future i).getD (servers.get i, .error (.other ""))) = run.result := by
    funext i
    obtain ⟨r, hr⟩ := Program.exists_end? (run.complete.2 i)
    simp [result, future, hr]
  rw [hresult]
  exact run.order_perm.map _

theorem results_sorted : run.summary.results.Pairwise fun r r' => r.server ≤ r'.server :=
  List.pairwise_insertionSort _ _

theorem mem_results {r : BackupResult} : r ∈ run.summary.results ↔ ∃ i, run.result i = r := by
  simp [run.results_perm.mem_iff]

theorem servers_perm : (run.summary.results.map (·.server)).Perm (servers.map (·.name)) := by
  have hnames : ((List.finRange servers.length).map run.result).map (·.server) =
      servers.map (·.name) := by
    have hget : (·.server) ∘ run.result = (·.name) ∘ servers.get := funext run.server_result
    rw [List.map_map, hget, ← List.map_map, List.map_get_finRange]
  exact hnames ▸ run.results_perm.map _

theorem servers_ascending (hnames : (servers.map (·.name)).Nodup) :
    (run.summary.results.map (·.server)).Pairwise (· < ·) := by
  have hnodup := run.servers_perm.nodup_iff.mpr hnames
  exact (List.pairwise_map.mpr run.results_sorted).imp₂ (fun _ _ => lt_of_le_of_ne) hnodup

/-- The entry under a server's name is the result of that server. -/
theorem eq_result (hnames : (servers.map (·.name)).Nodup) {r : BackupResult}
    (hr : r ∈ run.summary.results) {i : Fin servers.length}
    (hserver : r.server = (servers.get i).name) : r = run.result i := by
  obtain ⟨j, rfl⟩ := run.mem_results.mp hr
  rw [server_result] at hserver
  have hlt : ∀ i : Fin servers.length, i.val < (servers.map (·.name)).length := by simp
  have hsame : (servers.map (·.name)).get ⟨j, hlt j⟩ = (servers.map (·.name)).get ⟨i, hlt i⟩ := by
    simpa using hserver
  have hij : j = i := by
    simpa [Fin.ext_iff] using (List.Nodup.get_inj_iff hnames).mp hsame
  rw [hij]

/-- The summary depends on the outcomes only. -/
theorem sansDuration_results (hnames : (servers.map (·.name)).Nodup)
    (run' : BackupRun servers config types dryRun outcome) :
    run.summary.results.map sansDuration = run'.summary.results.map sansDuration := by
  have hperm : ∀ run : BackupRun servers config types dryRun outcome,
      (run.summary.results.map sansDuration).Perm ((List.finRange servers.length).map fun i =>
        expectedResult config types (servers.get i) (outcome i)) := by
    intro run
    have h := run.results_perm.map sansDuration
    rwa [List.map_map, show sansDuration ∘ run.result = fun i => expectedResult config types
      (servers.get i) (outcome i) from funext run.sansDuration_result] at h
  have hsorted : ∀ run : BackupRun servers config types dryRun outcome,
      (run.summary.results.map sansDuration).Pairwise fun r r' => r.server < r'.server := fun run =>
    List.pairwise_map.mpr (List.pairwise_map.mp (run.servers_ascending hnames))
  exact ((hperm run).trans (hperm run').symm).eq_of_pairwise
    (fun _ _ _ _ h h' => absurd (h.trans h') (lt_irrefl _)) (hsorted run) (hsorted run')

theorem allOk_iff : run.summary.allOk ↔
    ∀ i, ¬ ServerFails config types (servers.get i) (outcome i) := by
  simp only [BackupSummary.allOk, List.all_eq_true, mem_results, forall_exists_index,
    forall_apply_eq_imp_iff, Bool.not_eq_eq_eq_not, Bool.not_true]
  exact forall_congr' fun i => by rw [← run.hasErrors_result, Bool.not_eq_true]

theorem allFailed_iff : run.summary.failedServers.length = run.summary.results.length ↔
    ∀ i, ServerFails config types (servers.get i) (outcome i) := by
  simp only [BackupSummary.failedServers, List.length_filter_eq_length_iff, mem_results,
    forall_exists_index, forall_apply_eq_imp_iff, hasErrors_result]

end BackupRun

section Verdicts

variable {servers : List ServerConfig} {config : Except Error BackupSettings}
  {types : BackupType} {dryRun : Bool} {outcome : Fin servers.length → StepOutcomes}

theorem subject_iff (run : BackupRun servers config types dryRun outcome) (hne : servers ≠ []) :
    (buildSummarySubject run.summary = "[OK] Proxmox Backup Summary" ↔
        ∀ i, ¬ ServerFails config types (servers.get i) (outcome i)) ∧
      (buildSummarySubject run.summary = "[ERROR] Proxmox Backup Summary" ↔
        ∀ i, ServerFails config types (servers.get i) (outcome i)) ∧
      (buildSummarySubject run.summary = "[WARNING] Proxmox Backup Summary" ↔
        (∃ i, ServerFails config types (servers.get i) (outcome i)) ∧
          ∃ i, ¬ ServerFails config types (servers.get i) (outcome i)) := by
  have hfirst : ∃ i : Fin servers.length, True :=
    ⟨⟨0, List.length_pos_iff.mpr hne⟩, trivial⟩
  obtain ⟨i₀, -⟩ := hfirst
  unfold buildSummarySubject
  split
  · next hok =>
    have hall := run.allOk_iff.mp hok
    refine ⟨iff_of_true rfl hall, iff_of_false (by decide) fun h => hall i₀ (h i₀),
      iff_of_false (by decide) fun h => ?_⟩
    obtain ⟨⟨i, hi⟩, -⟩ := h
    exact hall i hi
  · next hok =>
    have hsome : ¬ ∀ i, ¬ ServerFails config types (servers.get i) (outcome i) :=
      fun h => hok (run.allOk_iff.mpr h)
    split
    · next hfailed =>
      have hall := run.allFailed_iff.mp hfailed
      refine ⟨iff_of_false (by decide) hsome, iff_of_true rfl hall,
        iff_of_false (by decide) fun h => ?_⟩
      obtain ⟨-, i, hi⟩ := h
      exact hi (hall i)
    · next hfailed =>
      have hother : ¬ ∀ i, ServerFails config types (servers.get i) (outcome i) :=
        fun h => hfailed (run.allFailed_iff.mpr h)
      refine ⟨iff_of_false (by decide) hsome, iff_of_false (by decide) hother, iff_of_true rfl ?_⟩
      push Not at hsome hother
      exact ⟨hsome, hother⟩

/-- The exit code of a command that backs up these servers. -/
theorem exit_iff {MailConfig : Type} (run : BackupRun servers config types dryRun outcome)
    (hne : servers ≠ []) {configured : List ServerConfig} {server : Option String}
    (hselect : selectServers configured server = servers) (services : MailServices MailConfig) :
    ExitsNonZero (cliBackup configured server dryRun config (fun _ _ => .ok run.summary) services) ↔
      ∃ i, ServerFails config types (servers.get i) (outcome i) := by
  have hconfigured : configured ≠ [] := by
    rintro rfl
    cases server <;> simp [selectServers, eq_comm, hne] at hselect
  cases config with
  | error e =>
    have hraises : cliBackup configured server dryRun (.error e) (fun _ _ => .ok run.summary)
        services = .error e := by
      simp only [cliBackup, hconfigured, hselect, hne, if_false]
      rfl
    rw [hraises]
    exact iff_of_true trivial ⟨⟨0, List.length_pos_iff.mpr hne⟩, .inl ⟨e, rfl⟩⟩
  | ok settings =>
    rw [cliBackup_exit (by rwa [hselect]) dryRun settings rfl services]
    have hok := run.allOk_iff
    cases hall : run.summary.allOk with
    | true =>
      refine iff_of_false (fun h => h rfl) fun h => ?_
      obtain ⟨i, hi⟩ := h
      exact hok.mp hall i hi
    | false =>
      refine iff_of_true (by simp [ExitsNonZero, ExitCode.value]) ?_
      by_contra! hnone
      rw [hok.mpr hnone] at hall
      cases hall

/-- Every summary has one result for each server, sorted by name, and is the same for every run
but for the durations. A server has errors exactly if its call or an attempted configuration or
ZFS step raised, whatever happens to other servers; subject and exit code follow. -/
theorem backupAll_verdicts (hne : servers ≠ []) (hnames : (servers.map (·.name)).Nodup)
    (run : BackupRun servers config types dryRun outcome) :
    ((run.summary.results.map (·.server)).Perm (servers.map (·.name)) ∧
      (run.summary.results.map (·.server)).Pairwise (· < ·)) ∧
    (∀ run' : BackupRun servers config types dryRun outcome,
      run.summary.results.map sansDuration = run'.summary.results.map sansDuration) ∧
    (∀ i, ∀ r ∈ run.summary.results, r.server = (servers.get i).name →
      (r.hasErrors ↔ ServerFails config types (servers.get i) (outcome i))) ∧
    (∀ (outcome' : Fin servers.length → StepOutcomes)
      (run' : BackupRun servers config types dryRun outcome') (i : Fin servers.length),
      outcome' i = outcome i → ∀ r ∈ run.summary.results, ∀ r' ∈ run'.summary.results,
        r.server = (servers.get i).name → r'.server = (servers.get i).name →
        sansDuration r = sansDuration r') ∧
    ((buildSummarySubject run.summary = "[OK] Proxmox Backup Summary" ↔
        ∀ i, ¬ ServerFails config types (servers.get i) (outcome i)) ∧
      (buildSummarySubject run.summary = "[ERROR] Proxmox Backup Summary" ↔
        ∀ i, ServerFails config types (servers.get i) (outcome i)) ∧
      (buildSummarySubject run.summary = "[WARNING] Proxmox Backup Summary" ↔
        (∃ i, ServerFails config types (servers.get i) (outcome i)) ∧
          ∃ i, ¬ ServerFails config types (servers.get i) (outcome i))) ∧
    ∀ (MailConfig : Type) (services : MailServices MailConfig) (configured : List ServerConfig)
      (server : Option String), selectServers configured server = servers →
      (ExitsNonZero (cliBackup configured server dryRun config (fun _ _ => .ok run.summary)
        services) ↔ ∃ i, ServerFails config types (servers.get i) (outcome i)) := by
  refine ⟨⟨run.servers_perm, run.servers_ascending hnames⟩, run.sansDuration_results hnames, ?_, ?_,
    subject_iff run hne, fun _ services _ _ hselect => exit_iff run hne hselect services⟩
  · intro i r hr hserver
    rw [run.eq_result hnames hr hserver, run.hasErrors_result]
  · intro outcome' run' i hsame r hr r' hr' hserver hserver'
    rw [run.eq_result hnames hr hserver, run'.eq_result hnames hr' hserver',
      run.sansDuration_result, run'.sansDuration_result, hsame]

end Verdicts

/-! Two servers, one after the other; the configuration step of the first raises. -/

def sampleServers : List ServerConfig := [sampleServer, { sampleServer with name := "px02" }]

def sampleOutcome (i : Fin 2) : StepOutcomes where
  config := if i.val = 0 then .error (.sshConnection "no route to host") else .ok ()
  packages := .error (.other "dpkg")
  zfs := .ok ()

/-- Each run starts and looks at the clock twice before the next one starts. -/
def oneByOne (n : Nat) : List (Pool.Move n) :=
  (List.finRange n).flatMap fun i => [.start, .act i, .act i]

def sampleFinal : Option (Pool Sys Error BackupResult (Machine 2) 2) :=
  Pool.follow (poolHandler fun _ => sampleEnv (.ok ⟨0, [31], ""⟩)) 1
    (Pool.initial (fun i => backupServer (outcomeSteps (sampleOutcome i)) (sampleServers.get i)
      (.ok sampleSettings) .all false) ⟨∅, fun _ => []⟩) (oneByOne 2)

def sampleBackup : BackupRun sampleServers (.ok sampleSettings) .all false sampleOutcome where
  State := Machine 2
  handler := poolHandler fun _ => sampleEnv (.ok ⟨0, [31], ""⟩)
  start := ⟨∅, fun _ => []⟩
  width := 1
  final := sampleFinal.get (by decide +kernel)
  reached := Pool.reaches_of_follow (Option.some_get _).symm
  complete := (by decide +kernel : (sampleFinal.get _).Complete)
  order := List.finRange 2
  order_perm := .refl _
  totalDuration := 0

theorem backupAll_verdicts_sample :
    buildSummarySubject sampleBackup.summary = "[WARNING] Proxmox Backup Summary" :=
  (backupAll_verdicts (by decide) (by decide) sampleBackup).2.2.2.2.1.2.2.mpr
    ⟨⟨(0 : Fin 2), .inr (.inl ⟨rfl, _, rfl⟩)⟩, ⟨(1 : Fin 2), by
      rintro (⟨e, he⟩ | ⟨-, e, he⟩ | ⟨-, e, he⟩) <;> cases he⟩⟩

end SrvBackup.Specification
