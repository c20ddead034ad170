import SrvBackup.Adapters.Hosts
import SrvBackup.Effects.Interleaving
import SrvBackup.Specification.Isolation

/-!
# Snapshots of a pool

A run makes a snapshot, sends it and destroys it; before that it destroys every snapshot with
the tag prefix of the program that it finds on its machine. `SparesSnapshots` says that this
cleanup never meets a snapshot that another run is using. In a pool with one worker, and in one
whose ZFS runs work on different machines, no operation of another run does
(`next_spares_snapshot`).
-/
namespace SrvBackup.Specification

open SrvBackup.Domain SrvBackup.Effects SrvBackup.Storage SrvBackup.Adapters

/-- The event is a command that ended well. -/
def succeeded (cmd : Invocation) (ev : Event) : Bool :=
  match ev with
  | ⟨.run c, .ok p⟩ => c = cmd && p.returncode = 0
  | _ => false

theorem op_of_succeeded {cmd : Invocation} {ev : Event} (h : succeeded cmd ev) :
    ev.op = .run cmd := by
  obtain ⟨o, answer⟩ := ev
  cases o with
  | run c =>
    cases answer with
    | ok p => simp_all [succeeded]
    | error e => simp [succeeded] at h
  | _ => simp [succeeded] at h

/-- The event is a transfer of what the command writes. -/
def streamed (cmd : Invocation) (ev : Event) : Bool :=
  match ev.op with
  | .popen c _ => c = cmd
  | _ => false

/-- The run with this log has not come to its own snapshot yet: what it destroys next are
leftovers. -/
def Cleaning (log : List Event) : Prop :=
  ∀ ev ∈ log, ∀ cmd, ev.op = .run cmd → ¬ "zfs snapshot -r ".toList <+: cmd.text.toList

section Uses

variable {H : Type} {n : Nat} (server : ServerConfig) (ssh : Ssh) (log : List Event) (s : Snapshot)

/-- The run with this log made the snapshot. -/
def Created : Prop :=
  (⟨server.zfsPool, s.tag⟩ : Snapshot).Covers s ∧
    ∃ ev ∈ log, succeeded (runInvocation server
      ("zfs snapshot -r " ++ Snapshot.name ⟨server.zfsPool, s.tag⟩) ssh) ev

/-- The run with this log sent the snapshot. -/
def Sent : Prop :=
  ∃ ev ∈ log, streamed (pipeInvocation server
    ("zfs send -R " ++ Snapshot.name ⟨server.zfsPool, s.tag⟩ ++ " | gzip -1") ssh) ev

instance : Decidable (Created server ssh log s) := by unfold Created; infer_instance

instance : Decidable (Sent server ssh log s) := by unfold Sent; infer_instance

end Uses

section Spares

variable {H : Type} [DecidableEq H] (machine : Option String → H) (servers : List ServerConfig)
  (settings : BackupSettings) (types : BackupType) (dryRun : Bool)

/-- Run `i` is still running, made the snapshot and has not sent it. -/
def InUse (c : Pool Sys Error BackupResult (Site H servers.length) servers.length)
    (i : Fin servers.length) (s : Snapshot) : Prop :=
  c.Active i ∧ Created (servers.get i) (sshFor (servers.get i) settings) (c.shared.here.log i) s ∧
    ¬ Sent (servers.get i) (sshFor (servers.get i) settings) (c.shared.here.log i) s

instance (c : Pool Sys Error BackupResult (Site H servers.length) servers.length)
    (i : Fin servers.length) (s : Snapshot) : Decidable (InUse servers settings c i s) := by
  unfold InUse; infer_instance

/-- In every pool that is reached, the cleanup of a run removes no snapshot that another run is
using. -/
def SparesSnapshots (link : Fin servers.length → Nat → Delivery) (env : Fin servers.length → Env)
    (width : Nat) (hosts : H → Host) (files : Files) : Prop :=
  ∀ c, Pool.Reaches (siteHandler machine link env) width
      (Pool.initial (backupPool backupSteps servers (.ok settings) types dryRun)
        ⟨hosts, ⟨files, fun _ => []⟩⟩) c →
    ∀ (i j : Fin servers.length) (o : Op) (s : Snapshot), i ≠ j → i < c.started →
      (c.thread i).next? = some o → Cleaning (c.shared.here.log i) →
      InUse servers settings c j s →
      s ∈ (c.shared.hosts
        (machineOf machine (servers.get j) (sshFor (servers.get j) settings))).snapshots →
      s ∈ ((siteHandler machine link env i o c.shared).2.hosts
        (machineOf machine (servers.get j) (sshFor (servers.get j) settings))).snapshots

/-- No two runs with a ZFS part work on one machine. -/
def MachinesApart : Prop :=
  ∀ i j : Fin servers.length, i ≠ j →
    attemptsZfs types (servers.get i) → attemptsZfs types (servers.get j) →
    machineOf machine (servers.get i) (sshFor (servers.get i) settings) ≠
      machineOf machine (servers.get j) (sshFor (servers.get j) settings)

end Spares

/-- The commands without a file that a run may run: any, if it has a ZFS part, otherwise those
that list packages. -/
def RunsOwnCommands (server : ServerConfig) (ssh : Ssh) (types : BackupType) (o : Op) : Prop :=
  ∀ cmd, o = .run cmd → ∃ command, cmd = runInvocation server command ssh ∧
    (attemptsZfs types server ∨ command ∈ [dpkgSelectionsCmd, dpkgListCmd])

theorem backupServer_runsOwnCommands (server : ServerConfig) (settings : BackupSettings)
    (types : BackupType) (dryRun : Bool) :
    (backupServer backupSteps server (.ok settings) types dryRun).Performs (E := Sys)
      (RunsOwnCommands server (sshFor server settings) types) := by
  have hother : ∀ {o : Op}, (∀ cmd, o ≠ .run cmd) →
      RunsOwnCommands server (sshFor server settings) types o := fun h cmd hcmd =>
    absurd hcmd (h cmd)
  have hfile : ∀ path, FileFootprint (RunsOwnCommands server (sshFor server settings) types)
      path := by
    intro path
    constructor <;> intros <;> exact hother (by simp)
  have hdir : ∀ d, DirFootprint (RunsOwnCommands server (sshFor server settings) types) d := by
    intro d
    constructor <;> intros <;> exact hother (by simp)
  refine backupServer_performs (hother (by simp)) (fun _ => ⟨?_, ?_⟩) fun hzfs => ?_
  · exact backupConfig_performs _ _ _ _ dryRun (hother (by simp)) (fun _ => hfile _) (hdir _)
  · refine backupPackages_performs _ dryRun (hother (by simp)) (fun command hcommand => ?_)
      (fun _ _ _ => hfile _) (hdir _)
    rintro _ ⟨⟩
    exact ⟨command, rfl, .inr hcommand⟩
  · refine backupZfs_performs _ dryRun (hother (by simp)) (fun command => ?_) (fun _ => hfile _)
      (hdir _)
    rintro _ ⟨⟩
    exact ⟨command, rfl, .inl hzfs⟩

/-- A run that made a snapshot has a ZFS part. -/
theorem attemptsZfs_of_created {server : ServerConfig} {ssh : Ssh} {types : BackupType}
    {log : List Event} {s : Snapshot} (hcreated : Created server ssh log s)
    (hlog : ∀ ev ∈ log, RunsOwnCommands server ssh types ev.op) : attemptsZfs types server := by
  obtain ⟨-, ev, hev, hok⟩ := hcreated
  obtain ⟨command, hcommand, hzfs | hdpkg⟩ := hlog _ hev _ (op_of_succeeded hok)
  · exact hzfs
  · have htext := congrArg Invocation.text hcommand
    simp only [text_runInvocation] at htext
    have hfirst : command.toList.head? = some 'z' := by
      rw [← htext, String.toList_append]
      rfl
    rcases List.mem_pair.mp hdpkg with rfl | rfl <;> exact absurd hfirst (by decide)

section Reached

variable {H : Type} [DecidableEq H] {machine : Option String → H} {servers : List ServerConfig}
  {settings : BackupSettings} {types : BackupType} {dryRun : Bool}
  {link : Fin servers.length → Nat → Delivery} {env : Fin servers.length → Env} {width : Nat}
  {hosts : H → Host} {files : Files}
  {c : Pool Sys Error BackupResult (Site H servers.length) servers.length}

/-- Runs run their own commands only, in what they have done and in what they still do. -/
theorem reached_runsOwnCommands
    (hc : Pool.Reaches (siteHandler machine link env) width
      (Pool.initial (backupPool backupSteps servers (.ok settings) types dryRun)
        ⟨hosts, ⟨files, fun _ => []⟩⟩) c) (i : Fin servers.length) :
    (c.thread i).Performs (E := Sys)
        (RunsOwnCommands (servers.get i) (sshFor (servers.get i) settings) types) ∧
      ∀ ev ∈ c.shared.here.log i,
        RunsOwnCommands (servers.get i) (sshFor (servers.get i) settings) types ev.op := by
  have hkeep : ∀ (i : Fin servers.length) (o : Op) (site : Site H servers.length),
      RunsOwnCommands (servers.get i) (sshFor (servers.get i) settings) types o →
      (∀ j, ∀ ev ∈ site.here.log j,
        RunsOwnCommands (servers.get j) (sshFor (servers.get j) settings) types ev.op) →
      ∀ j, ∀ ev ∈ (siteHandler machine link env i o site).2.here.log j,
        RunsOwnCommands (servers.get j) (sshFor (servers.get j) settings) types ev.op := by
    intro i o site ho hsite j ev hev
    obtain ⟨answer, hlog⟩ := siteHandler_log machine link env i site o
    rw [hlog] at hev
    by_cases hji : j = i
    · subst hji
      rw [Function.update_self] at hev
      rcases List.mem_cons.mp hev with rfl | hev
      · exact ho
      · exact hsite j ev hev
    · rw [Function.update_of_ne hji] at hev
      exact hsite j ev hev
  have hinv := hc.preserves_shared hkeep
    (fun i => backupServer_runsOwnCommands (servers.get i) settings types dryRun)
    (fun i ev hev => by cases hev)
  exact ⟨hinv.1 i, hinv.2 i⟩

/-- With one worker, or with machines of their own, no operation of another run touches a
snapshot in use. -/
theorem next_spares_snapshot (hcond : width = 1 ∨ MachinesApart machine servers settings types)
    (hc : Pool.Reaches (siteHandler machine link env) width
      (Pool.initial (backupPool backupSteps servers (.ok settings) types dryRun)
        ⟨hosts, ⟨files, fun _ => []⟩⟩) c) {i j : Fin servers.length} (hij : i ≠ j)
    (hstarted : i < c.started) {o : Op} (hnext : (c.thread i).next? = some o) {s : Snapshot}
    (huse : InUse servers settings c j s) :
    (siteHandler machine link env i o c.shared).2.hosts
        (machineOf machine (servers.get j) (sshFor (servers.get j) settings)) =
      c.shared.hosts (machineOf machine (servers.get j) (sshFor (servers.get j) settings)) := by
  obtain ⟨hperf, -⟩ := reached_runsOwnCommands hc i
  obtain ⟨ho, hopen⟩ := hperf.of_next? hnext
  rcases hcond with rfl | hapart
  · have hbusy := hc.busy_le (by simp)
    exact absurd (Pool.eq_of_busy_le_one hbusy ⟨hstarted, hopen⟩ huse.1) hij
  have hzfs := attemptsZfs_of_created huse.2.1 (reached_runsOwnCommands hc j).2
  by_cases hrun : ∃ cmd, o = .run cmd
  · obtain ⟨cmd, rfl⟩ := hrun
    obtain ⟨command, rfl, hzfs' | hdpkg⟩ := ho cmd rfl
    · refine siteHandler_hosts_of_ne ?_
      rw [machine_runInvocation machine]
      exact (hapart i j hij hzfs' hzfs).symm
    · refine siteHandler_hosts_of_text ?_ _
      rw [text_runInvocation]
      rcases List.mem_pair.mp hdpkg with rfl | rfl <;> decide
  · exact siteHandler_hosts_of_not_run (fun cmd hcmd => hrun ⟨cmd, hcmd⟩) _

end Reached

/-- With one worker, or with machines of their own, the runs of a pool leave each other's
snapshots alone. -/
theorem sparesSnapshots {H : Type} [DecidableEq H] {machine : Option String → H}
    {servers : List ServerConfig} {settings : BackupSettings} {types : BackupType} {width : Nat}
    (dryRun : Bool) (link : Fin servers.length → Nat → Delivery) (env : Fin servers.length → Env)
    (hosts : H → Host) (files : Files)
    (hcond : width = 1 ∨ MachinesApart machine servers settings types) :
    SparesSnapshots machine servers settings types dryRun link env width hosts files := by
  intro c hc i j o s hij hstarted hnext _ huse hs
  rwa [next_spares_snapshot hcond hc hij hstarted hnext huse]

/-- One host, listed once per pool. -/
def twinServers : List ServerConfig :=
  [{ name := "px_rpool", hostname := "px.lan", zfsPool := "rpool" },
   { name := "px_tank", hostname := "px.lan", zfsPool := "tank" }]

def twinHosts : Option String → Host := fun _ => ⟨["rpool", "tank", "tank/vm"], []⟩

theorem sparesSnapshots_sample :
    SparesSnapshots id twinServers sampleSettings .zfs false (fun _ _ => .answered)
      (fun _ => sampleEnv (.ok ⟨0, [31], ""⟩)) 1 twinHosts ∅ :=
  sparesSnapshots false _ _ twinHosts ∅ (.inl rfl)

/-- The second run makes its snapshot, then the first one lists the leftovers. -/
def twinSchedule : List (Pool.Move 2) :=
  [.start, .start, .act 1, .act 1, .act 1, .act 1, .act 0, .act 0, .act 0]

def twinPool :
    Option (Pool Sys Error BackupResult (Site (Option String) twinServers.length)
      twinServers.length) :=
  (Pool.initial (backupPool backupSteps twinServers (.ok sampleSettings) .zfs false)
    ⟨twinHosts, ⟨∅, fun _ => []⟩⟩).follow
      (siteHandler id (fun _ _ => .answered) fun _ => sampleEnv (.ok ⟨0, [31], ""⟩)) 2 twinSchedule

/-- With two workers, the cleanup of the first run destroys the snapshot that the second one is
about to send. -/
theorem cleanup_destroys_live_snapshot :
    (twinServers.map (·.name)).Nodup ∧
      ¬ SparesSnapshots id twinServers sampleSettings .zfs false (fun _ _ => .answered)
        (fun _ => sampleEnv (.ok ⟨0, [31], ""⟩)) 2 twinHosts ∅ := by
  refine ⟨by decide, fun h => ?_⟩
  have hpool : ∃ c ∈ twinPool, 0 < c.started ∧
      (c.thread ⟨0, by decide⟩).next? = some (.run (runInvocation twinServers[0]
        "zfs destroy -r tank@pull_backup_2026-03-23_04-30-00"
        (sshFor twinServers[0] sampleSettings))) ∧
      (∀ ev ∈ c.shared.here.log ⟨0, by decide⟩, ev.op = .monotonic ∨ ev.op = .now ∨
        ev.op = .run (runInvocation twinServers[0] listCmd
          (sshFor twinServers[0] sampleSettings))) ∧
      InUse twinServers sampleSettings c ⟨1, by decide⟩
        ⟨"tank/vm", "pull_backup_2026-03-23_04-30-00"⟩ ∧
      (c.shared.hosts (some "root@px.lan")).snapshots =
        [⟨"tank", "pull_backup_2026-03-23_04-30-00"⟩,
          ⟨"tank/vm", "pull_backup_2026-03-23_04-30-00"⟩] ∧
      ((siteHandler id (fun _ _ => .answered) (fun _ => sampleEnv (.ok ⟨0, [31], ""⟩))
        ⟨0, by decide⟩ (.run (runInvocation twinServers[0]
          "zfs destroy -r tank@pull_backup_2026-03-23_04-30-00"
          (sshFor twinServers[0] sampleSettings))) c.shared).2.hosts
            (some "root@px.lan")).snapshots = [] := by
    decide +kernel
  obtain ⟨c, hc, hstarted, hnext, hlog, huse, hbefore, hafter⟩ := hpool
  have hcleaning : Cleaning (c.shared.here.log ⟨0, by decide⟩) := by
    intro ev hev cmd hcmd
    rcases hlog ev hev with h | h | h <;> rw [h] at hcmd <;> cases hcmd
    rw [text_runInvocation]
    decide
  have hthere := h c (Pool.reaches_of_follow hc) ⟨0, by decide⟩ ⟨1, by decide⟩ _
    ⟨"tank/vm", "pull_backup_2026-03-23_04-30-00"⟩ (by decide) hstarted hnext hcleaning huse
  have hmachine : machineOf id (twinServers.get ⟨1, by decide⟩)
      (sshFor (twinServers.get ⟨1, by decide⟩) sampleSettings) = some "root@px.lan" := by
    decide
  have hleft := hthere (by rw [hmachine, hbefore]; simp)
  rw [hmachine, hafter] at hleft
  cases hleft

end SrvBackup.Specification
