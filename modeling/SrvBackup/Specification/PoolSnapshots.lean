import SrvBackup.Effects.Completion
import SrvBackup.Effects.Obligations
import SrvBackup.Specification.OwnSnapshot

/-!
# The snapshots of all machines after a pool

While every command reaches its machine and is answered, a run that made a snapshot owes its
destruction, however its transfer ends. So a finished pool leaves no snapshot behind that was not
there before (`no_snapshot_left`), although its runs may work on one machine at the same time and
destroy each other's snapshots. The snapshots of others stay whatever gets lost
(`foreign_snapshots_stay`).
-/
namespace SrvBackup.Specification

open SrvBackup.Domain SrvBackup.Effects SrvBackup.Storage SrvBackup.Text SrvBackup.Adapters

/-! ## Commands and what they concern -/

theorem ofText?_create {text : String} {root : Snapshot}
    (h : ZfsCommand.ofText? text = some (.create root)) :
    ∃ name, text = "zfs snapshot -r " ++ name ∧ Snapshot.ofName? name = some root := by
  unfold ZfsCommand.ofText? at h
  split at h
  · cases h
  split at h
  · next name hname =>
    obtain ⟨root', hroot, heq⟩ := Option.map_eq_some_iff.mp h
    cases heq
    refine ⟨String.ofList name, ?_, hroot⟩
    obtain ⟨front, htext, hfront⟩ := List.dropPrefix?_eq_some_iff.mp hname
    apply String.toList_inj.mp
    rw [String.toList_append, htext, eq_of_beq hfront]
    simp
  · obtain ⟨root', -, heq⟩ := Option.map_eq_some_iff.mp h
    cases heq
  · cases h

theorem ofText?_destroy_name (name : String) :
    ZfsCommand.ofText? ("zfs destroy -r " ++ name) =
      (Snapshot.ofName? name).map ZfsCommand.destroy := by
  have hlist : "zfs destroy -r " ++ name ≠ listCmd := by
    intro h
    have hfifth := congrArg (fun text : String => text.toList[4]?) h
    simp [String.toList_append, listCmd] at hfifth
  have htext : ("zfs destroy -r " ++ name).toList = "zfs destroy -r ".toList ++ name.toList :=
    String.toList_append
  have hsnapshot : ("zfs destroy -r ".toList ++ name.toList).dropPrefix?
      "zfs snapshot -r ".toList = none := rfl
  rw [ZfsCommand.ofText?, if_neg hlist, htext, hsnapshot,
    List.dropPrefix?_append_of_beq _ (by decide)]
  simp

theorem ofText?_create_name (name : String) :
    ZfsCommand.ofText? ("zfs snapshot -r " ++ name) =
      (Snapshot.ofName? name).map ZfsCommand.create := by
  have hlist : "zfs snapshot -r " ++ name ≠ listCmd := fun h => listCmd_ne name h.symm
  have htext : ("zfs snapshot -r " ++ name).toList = "zfs snapshot -r ".toList ++ name.toList :=
    String.toList_append
  rw [ZfsCommand.ofText?, if_neg hlist, htext, List.dropPrefix?_append_of_beq _ (by decide)]
  simp

/-- A command makes no snapshot but the ones that it is told to. -/
theorem mem_exec {host : Host} {command : ZfsCommand} {s : Snapshot}
    (hs : s ∈ (host.exec command).2.snapshots) :
    s ∈ host.snapshots ∨ ∃ root, command = .create root ∧ root.Covers s ∧
      s.dataset ∈ host.datasets ∧ (host.exec command).1.returncode = 0 := by
  cases command with
  | list => exact .inl hs
  | create root =>
    simp only [Host.exec] at hs ⊢
    split at hs
    · exact .inl hs
    split at hs
    · exact .inl hs
    · next hdataset hnew =>
      rcases List.mem_append.mp hs with hs | hs
      · exact .inl hs
      · obtain ⟨hmap, hcovers⟩ := List.mem_filter.mp hs
        obtain ⟨d, hd, rfl⟩ := List.mem_map.mp hmap
        refine .inr ⟨root, rfl, of_decide_eq_true hcovers, hd, ?_⟩
        rw [if_neg hdataset, if_neg hnew]
  | destroy root =>
    simp only [Host.exec] at hs
    split at hs
    · exact .inl (List.mem_filter.mp hs).1
    · exact .inl hs

theorem not_mem_exec_destroy {host : Host} {root s : Snapshot} (hcovers : root.Covers s) :
    s ∉ (host.exec (.destroy root)).2.snapshots := by
  simp only [Host.exec]
  split
  · simp [hcovers]
  · next hnone => exact fun hs => hnone ⟨s, hs, hcovers⟩

section Handler

variable {H : Type} [DecidableEq H] {n : Nat} (machine : Option String → H)
  {link : Fin n → Nat → Delivery} (env : Fin n → Env) {i : Fin n} (site : Site H n)

/-- A command that is answered is carried out on the machine of its server. -/
theorem siteHandler_answered (hlink : ∀ k, link i k = .answered) (server : ServerConfig)
    (ssh : Ssh) {text : String} {command : ZfsCommand}
    (hcommand : ZfsCommand.ofText? text = some command) :
    (siteHandler machine link env i (.run (runInvocation server text ssh)) site).1 =
        .ok ((site.hosts (machineOf machine server ssh)).exec command).1 ∧
      (siteHandler machine link env i (.run (runInvocation server text ssh)) site).2.hosts =
        Function.update site.hosts (machineOf machine server ssh)
          ((site.hosts (machineOf machine server ssh)).exec command).2 := by
  constructor
  · simp only [siteHandler, machine_runInvocation machine, text_runInvocation, hcommand, hlink,
      Host.deliver]
    rfl
  · simp only [siteHandler, machine_runInvocation machine, text_runInvocation, hcommand, hlink,
      Host.deliver]

end Handler

/-! ## What a run owes -/

/-- A snapshot that was made obliges to its destruction. -/
def Obliges (server : ServerConfig) (ssh : Ssh) : (o : Op) → Answer o → Op → Prop
  | .run cmd, .ok p, o' => p.returncode = 0 ∧ ∃ name,
      cmd = runInvocation server ("zfs snapshot -r " ++ name) ssh ∧
      o' = .run (runInvocation server ("zfs destroy -r " ++ name) ssh)
  | _, _, _ => False

section Repays

variable {server : ServerConfig} {ssh : Ssh}

/-- The operation obliges to nothing. -/
def Free (server : ServerConfig) (ssh : Ssh) (o : Op) : Prop :=
  ∀ x o', ¬ Obliges server ssh o x o'

theorem free_of_not_run {o : Op} (h : ∀ cmd, o ≠ .run cmd) : Free server ssh o := by
  cases o with
  | run cmd => exact absurd rfl (h cmd)
  | _ => exact fun _ _ => id

theorem free_run {text : String} (h : ∀ name, text ≠ "zfs snapshot -r " ++ name) :
    Free server ssh (.run (runInvocation server text ssh)) := by
  rintro (e | p) o' hobliges
  · exact hobliges
  · obtain ⟨-, name, hcmd, -⟩ := hobliges
    exact h name (runInvocation_inj hcmd)

theorem free_file (path : Path) : FileFootprint (Free server ssh) path := by
  constructor <;> intros <;> exact free_of_not_run (by simp)

theorem free_dir (d : Path) : DirFootprint (Free server ssh) d := by
  constructor <;> intros <;> exact free_of_not_run (by simp)

theorem dpkg_ne_create {command : String} (h : command ∈ [dpkgSelectionsCmd, dpkgListCmd])
    (name : String) : command ≠ "zfs snapshot -r " ++ name := by
  intro heq
  have hfirst : command.toList.head? = some 'z' := by
    rw [heq, String.toList_append]
    rfl
  rcases List.mem_pair.mp h with rfl | rfl <;> exact absurd hfirst (by decide)

/-- Whatever comes after making a snapshot and owes its destruction repays what the command
obliges to. -/
theorem create_repays {name : String} {k : Prog Unit} (f : String → Error)
    (howes : k.Owes (E := Sys) (.run (runInvocation server ("zfs destroy -r " ++ name) ssh)))
    (hk : k.Repays (E := Sys) (Obliges server ssh)) :
    ((exceptSSH (runCmd server ("zfs snapshot -r " ++ name) ssh) fun text =>
      .raise (f text)).bind fun _ => k).Repays (E := Sys) (Obliges server ssh) := by
  obtain ⟨failed, exited, hrun⟩ := exists_runCommand_eq server ("zfs snapshot -r " ++ name) ssh
  simp only [runCmd, hrun]
  rintro (e | p)
  · exact ⟨fun o' h => h.elim, trivial⟩
  -- What is left after the answer goes on with `k` exactly if the exit status is zero.
  have hleft : ∀ rest : Prog Unit,
      rest = (exceptSSH ((if p.returncode ≠ 0 then
          .raise (exitError exited p.returncode p.stderr) else .ret p : Prog CompletedProcess).bind
        fun _ => .ret ()) fun text => .raise (f text)).bind (fun _ => k) →
      (∀ o', Obliges server ssh (.run (runInvocation server ("zfs snapshot -r " ++ name) ssh))
        (.ok p) o' → rest.Owes (E := Sys) o') ∧ rest.Repays (E := Sys) (Obliges server ssh) := by
    rintro _ rfl
    by_cases hstatus : p.returncode = 0
    · rw [if_neg (not_not.mpr hstatus)]
      refine ⟨?_, hk⟩
      rintro _ ⟨-, name', hcmd, rfl⟩
      obtain rfl : name = name' := by simpa using runInvocation_inj hcmd
      exact howes
    · rw [if_pos hstatus]
      exact ⟨fun o' h => absurd h.1 hstatus, trivial⟩
  exact hleft _ rfl

/-- The destruction stands in a `finally` clause. -/
theorem useSnapshot_owes (backupDir : Path) (retentionCount : Int) (timestamp : String) :
    (useSnapshot server ssh backupDir retentionCount timestamp).Owes (E := Sys)
      (.run (runInvocation server ("zfs destroy -r " ++ fullSnapshot server timestamp) ssh)) := by
  refine Program.Owes.bind (Program.Owes.finally_clause ?_ _) _
  obtain ⟨failed, exited, hrun⟩ := exists_runCommand_eq server
    ("zfs destroy -r " ++ fullSnapshot server timestamp) ssh
  simp only [runCmd, hrun]
  exact .inl rfl

theorem destroy_free (name : String) :
    Free server ssh (.run (runInvocation server ("zfs destroy -r " ++ name) ssh)) :=
  free_run fun full => createCmd_ne name full

theorem cleanup_repays (server : ServerConfig) (ssh : Ssh) :
    (cleanupStaleSnapshots server ssh).Repays (E := Sys) (Obliges server ssh) := by
  refine Program.Performs.repays (P := Free server ssh) (fun _ h => h) ?_
  refine performs_exceptSSH ((runOn_performs (free_run listCmd_ne)).bind fun _ => ?_)
    fun _ => Program.performs_ret ()
  exact Program.performs_forEach fun snap _ => runCmd_performs (destroy_free snap)

theorem useSnapshot_repays (server : ServerConfig) (ssh : Ssh) (backupDir : Path)
    (retentionCount : Int) (timestamp : String) :
    (useSnapshot server ssh backupDir retentionCount timestamp).Repays (E := Sys)
      (Obliges server ssh) := by
  refine Program.Performs.repays (P := Free server ssh) (fun _ h => h) ?_
  refine Program.Performs.bind (Program.Performs.finallyDo ?_ ?_) fun _ => ?_
  · exact (sendArchive_performs server backupDir ssh timestamp).mono fun o ho =>
      free_of_not_run fun cmd hcmd => ho.quiet ⟨cmd, hcmd⟩
  · exact performs_exceptSSH (runCmd_performs (destroy_free _)) fun _ => Program.performs_ret ()
  · exact (applyRetention_performs _ retentionCount (free_dir _)).bind fun _ =>
      Program.performs_ret ()

theorem backupZfs_repays (server : ServerConfig) (backupDir : Path) (ssh : Ssh)
    (retentionCount : Int) (dryRun : Bool) :
    (backupZfs server backupDir ssh retentionCount dryRun).Repays (E := Sys)
      (Obliges server ssh) := by
  cases dryRun with
  | true => exact fun _ => ⟨fun _ h => h.elim, trivial⟩
  | false =>
    rw [backupZfs_eq_create_use]
    refine fun t => ⟨fun _ h => h.elim, ?_⟩
    change ((createSnapshot server ssh (buildTimestamp t)).bind fun _ =>
      useSnapshot server ssh backupDir retentionCount (buildTimestamp t)).Repays _
    rw [createSnapshot, Program.bind_assoc]
    exact (cleanup_repays server ssh).bind fun _ => create_repays _
      (useSnapshot_owes backupDir retentionCount _)
      (useSnapshot_repays server ssh backupDir retentionCount _)

theorem tryStep_repays {step : Prog Unit} (h : step.Repays (E := Sys) (Obliges server ssh)) :
    (tryStep step).Repays (E := Sys) (Obliges server ssh) :=
  Program.Repays.handle (h.bind fun _ => trivial) fun _ => trivial

theorem backupServer_repays (server : ServerConfig) (settings : BackupSettings)
    (types : BackupType) (dryRun : Bool) :
    (backupServer backupSteps server (.ok settings) types dryRun).Repays (E := Sys)
      (Obliges server (sshFor server settings)) := by
  have hnow : ∀ {o : Op}, (∀ cmd, o ≠ .run cmd) → Free server (sshFor server settings) o :=
    free_of_not_run
  have hconfig : (configPart backupSteps server settings (sshFor server settings) types
      dryRun).Repays (E := Sys) (Obliges server (sshFor server settings)) := by
    unfold configPart
    split
    · refine Program.Repays.bind (tryStep_repays ?_) fun _ =>
        Program.Repays.bind (tryStep_repays ?_) fun _ => trivial
      · exact (backupConfig_performs _ _ _ _ dryRun (hnow (by simp)) (fun _ => free_file _)
          (free_dir _)).repays fun _ h => h
      · exact (backupPackages_performs _ dryRun (hnow (by simp))
          (fun _ hcommand => free_run (dpkg_ne_create hcommand)) (fun _ _ _ => free_file _)
          (free_dir _)).repays fun _ h => h
    · trivial
  have hzfs : (zfsPart backupSteps server settings (sshFor server settings) types
      dryRun).Repays (E := Sys) (Obliges server (sshFor server settings)) := by
    unfold zfsPart
    split
    · exact tryStep_repays (backupZfs_repays _ _ _ _ _)
    · trivial
  exact fun _ => ⟨fun _ h => h.elim, hconfig.bind fun _ => hzfs.bind fun _ _ =>
    ⟨fun _ h => h.elim, trivial⟩⟩

end Repays

/-! ## Nothing is left -/

section Left

variable {H : Type} [DecidableEq H] {machine : Option String → H} {servers : List ServerConfig}
  {settings : BackupSettings} {types : BackupType} {dryRun : Bool}
  {link : Fin servers.length → Nat → Delivery} {env : Fin servers.length → Env} {width : Nat}
  {hosts : H → Host} {files : Files}
  {c : Pool Sys Error BackupResult (Site H servers.length) servers.length}

/-- The operation destroys the snapshot. -/
def Destroys (machine : Option String → H) (server : ServerConfig) (ssh : Ssh) (o : Op)
    (r : H × Snapshot) : Prop :=
  ∃ name root, Snapshot.ofName? name = some root ∧ root.Covers r.2 ∧
    r.1 = machineOf machine server ssh ∧
    o = .run (runInvocation server ("zfs destroy -r " ++ name) ssh)

/-- What the runs of a pool make they have to destroy. -/
theorem snapshots_custody (hlink : ∀ i k, link i k = .answered) :
    Custody (siteHandler machine link env)
      (fun i => RunsOwnCommands (servers.get i) (sshFor (servers.get i) settings) types)
      (fun (site : Site H servers.length) (r : H × Snapshot) => r.2 ∈ (site.hosts r.1).snapshots)
      (fun i => Destroys machine (servers.get i) (sshFor (servers.get i) settings))
      (fun i => Obliges (servers.get i) (sshFor (servers.get i) settings)) where
  make i o site r ho hr := by
    by_cases hrun : ∃ cmd, o = .run cmd
    · obtain ⟨cmd, rfl⟩ := hrun
      obtain ⟨text, rfl, -⟩ := ho cmd rfl
      cases hcommand : ZfsCommand.ofText? text with
      | none =>
        rw [siteHandler_hosts_of_text (by rwa [text_runInvocation])] at hr
        exact .inl hr
      | some command =>
        obtain ⟨hanswer, hhosts⟩ := siteHandler_answered machine env site (hlink i) (servers.get i)
          (sshFor (servers.get i) settings) hcommand
        rw [hhosts] at hr
        by_cases hmachine :
            r.1 = machineOf machine (servers.get i) (sshFor (servers.get i) settings)
        · rw [hmachine, Function.update_self] at hr
          rcases mem_exec hr with hr | ⟨root, rfl, hcovers, -, hstatus⟩
          · exact .inl (hmachine ▸ hr)
          obtain ⟨name, rfl, hname⟩ := ofText?_create hcommand
          refine .inr ⟨.run (runInvocation (servers.get i) ("zfs destroy -r " ++ name)
            (sshFor (servers.get i) settings)), ?_, name, root, hname, hcovers, hmachine, rfl⟩
          rw [hanswer]
          exact ⟨hstatus, name, rfl, rfl⟩
        · rw [Function.update_of_ne hmachine] at hr
          exact .inl hr
    · rw [siteHandler_hosts_of_not_run fun cmd hcmd => hrun ⟨cmd, hcmd⟩] at hr
      exact .inl hr
  free i o site r ho hdestroys hr := by
    obtain ⟨name, root, hname, hcovers, hmachine, rfl⟩ := hdestroys
    have hcommand : ZfsCommand.ofText? ("zfs destroy -r " ++ name) = some (.destroy root) := by
      rw [ofText?_destroy_name, hname]
      rfl
    obtain ⟨-, hhosts⟩ := siteHandler_answered machine env site (hlink i) (servers.get i)
      (sshFor (servers.get i) settings) hcommand
    rw [hhosts, hmachine, Function.update_self] at hr
    exact not_mem_exec_destroy hcovers hr

/-- Every snapshot that is on a machine after a pool was there before it, whatever the runs do to
each other: also when they share a machine, and when their transfers fail. -/
theorem no_snapshot_left (hlink : ∀ i k, link i k = .answered)
    (hc : Pool.Reaches (siteHandler machine link env) width
      (Pool.initial (backupPool backupSteps servers (.ok settings) types dryRun)
        ⟨hosts, ⟨files, fun _ => []⟩⟩) c) (hdone : c.Complete) (h : H) {s : Snapshot}
    (hs : s ∈ (c.shared.hosts h).snapshots) : s ∈ (hosts h).snapshots :=
  (snapshots_custody hlink).nothing_left (r := (h, s)) hc
    (fun _ => backupServer_runsOwnCommands _ _ _ _) (fun _ => backupServer_repays _ _ _ _) hdone hs

end Left

/-- The pool of the two servers on one host, both workers busy. -/
theorem no_snapshot_left_sample :
    ∃ c, Pool.Reaches
        (siteHandler id (fun _ _ => .answered) fun _ => sampleEnv (.ok ⟨1, [], "gone"⟩))
        2 (Pool.initial (backupPool backupSteps twinServers (.ok sampleSettings) .all false)
          ⟨twinHosts, ⟨∅, fun _ => []⟩⟩) c ∧ c.Complete ∧
      ∀ h, (c.shared.hosts h).snapshots = [] := by
  obtain ⟨c, hc, hdone⟩ := Pool.exists_complete
    (h := siteHandler id (fun _ _ => .answered) fun _ => sampleEnv (.ok ⟨1, [], "gone"⟩))
    (show 0 < 2 by decide) (c := Pool.initial
      (backupPool backupSteps twinServers (.ok sampleSettings) .all false)
      ⟨twinHosts, ⟨∅, fun _ => []⟩⟩) (Nat.zero_le _)
  refine ⟨c, hc, hdone, fun h => List.eq_nil_iff_forall_not_mem.mpr fun s hs => ?_⟩
  exact absurd (no_snapshot_left (fun _ _ => rfl) hc hdone h hs) (by simp [twinHosts])

/-! ## Snapshots of others -/

/-- The names that ZFS gives: nothing in them ends a line or means something to a shell. -/
structure LegalSnapshot (s : Snapshot) : Prop where
  dataset : IsDatasetName s.dataset
  tag : IsDatasetName s.tag

structure LegalHost (host : Host) : Prop where
  datasets : ∀ d ∈ host.datasets, IsDatasetName d
  snapshots : ∀ s ∈ host.snapshots, LegalSnapshot s

theorem LegalSnapshot.isStaleName {s : Snapshot} (hs : LegalSnapshot s)
    (hgrep : "@pull_backup_".toList <:+: s.name.toList) : IsStaleName s.name where
  chars c hc := by
    rw [s.toList_name] at hc
    rcases List.mem_append.mp hc with hc | hc
    · exact (hs.dataset c hc).1
    rcases List.mem_cons.mp hc with rfl | hc
    · decide
    · exact (hs.tag c hc).1
  count_at := by
    have hnone : ∀ name : String, IsDatasetName name → name.toList.count '@' = 0 :=
      fun name hname => List.count_eq_zero.mpr fun hmem => (hname _ hmem).2 rfl
    rw [s.toList_name, List.count_append, List.count_cons_self, hnone _ hs.dataset,
      hnone _ hs.tag, zero_add]
  tag := hgrep

/-- A stale name is the name of a stale snapshot. -/
theorem IsStaleName.exists_root {name : String} (hname : IsStaleName name) :
    ∃ root, Snapshot.ofName? name = some root ∧ root.IsStale := by
  obtain ⟨front, back, hparts⟩ := hname.tag
  obtain ⟨tag, htag⟩ : ∃ tag, "pull_backup_".toList ++ back = tag := ⟨_, rfl⟩
  have hsplit : name.toList = front ++ '@' :: tag := by
    rw [← hparts, ← htag]
    simp
  have hcount := hname.count_at
  rw [hsplit, List.count_append, List.count_cons_self] at hcount
  have hfront : '@' ∉ front := List.count_eq_zero.mp (by omega)
  have hback : '@' ∉ tag := List.count_eq_zero.mp (by omega)
  refine ⟨⟨String.ofList front, String.ofList tag⟩, ?_, ?_⟩
  · rw [Snapshot.ofName?, hsplit, List.splitOn_append_cons_self_of_not_mem hfront,
      List.splitOn_eq_singleton hback]
  · simp only [Snapshot.IsStale, String.toList_ofList]
    exact ⟨back, htag⟩

/-- A listing that succeeds prints stale names, one on each line. -/
def ListsStaleNames (server : ServerConfig) (ssh : Ssh) : (o : Op) → Answer o → Prop
  | .run cmd, .ok p => cmd = runInvocation server listCmd ssh → p.returncode = 0 →
      ∃ names, p.stdout = unlines names ∧ ∀ name ∈ names, IsStaleName name
  | _, _ => True

/-- A command of the operation makes a snapshot of the program, destroys what bears a stale name,
or changes no snapshot. -/
def SparesForeign (server : ServerConfig) (ssh : Ssh) (o : Op) : Prop :=
  ∀ cmd, o = .run cmd → ∃ text, cmd = runInvocation server text ssh ∧
    ((∃ t : DateTime, text = "zfs snapshot -r " ++ fullSnapshot server (buildTimestamp t)) ∨
      (∃ name, IsStaleName name ∧ text = "zfs destroy -r " ++ name) ∨
      text = listCmd ∨ ZfsCommand.ofText? text = none)

section Contract

variable {server : ServerConfig} {ssh : Ssh}

theorem spares_of_not_run {o : Op} (h : ∀ cmd, o ≠ .run cmd) : SparesForeign server ssh o :=
  fun cmd hcmd => absurd hcmd (h cmd)

theorem spares_file (path : Path) : FileFootprint (SparesForeign server ssh) path := by
  constructor <;> intros <;> exact spares_of_not_run (by simp)

theorem spares_dir (d : Path) : DirFootprint (SparesForeign server ssh) d := by
  constructor <;> intros <;> exact spares_of_not_run (by simp)

theorem spares_destroy {name : String} (hname : IsStaleName name) :
    SparesForeign server ssh (.run (runInvocation server ("zfs destroy -r " ++ name) ssh)) := by
  rintro _ ⟨⟩
  exact ⟨_, rfl, .inr (.inl ⟨name, hname, rfl⟩)⟩

/-- Without an answer to rely on, the footprint of a program is its contract. -/
theorem contract_of_performs {α : Type} {p : Prog α}
    (hp : p.Performs (E := Sys) (SparesForeign server ssh)) :
    p.Contract (E := Sys) (ListsStaleNames server ssh) (SparesForeign server ssh) fun _ => True :=
  hp.contract

theorem runOn_list_contract (server : ServerConfig) (ssh : Ssh) :
    (runOn server listCmd ssh).Contract (E := Sys) (ListsStaleNames server ssh)
      (SparesForeign server ssh) fun r => ∀ p, r = .ok p →
        ∃ names, p.stdout = unlines names ∧ ∀ name ∈ names, IsStaleName name := by
  obtain ⟨failed, exited, hrun⟩ := exists_runCommand_eq server listCmd ssh
  rw [hrun]
  refine ⟨?_, ?_⟩
  · rintro _ ⟨⟩
    exact ⟨_, rfl, .inr (.inr (.inl rfl))⟩
  rintro (e | p) hanswer
  · rintro _ ⟨⟩
  change (if p.returncode ≠ 0 then .raise (exitError exited p.returncode p.stderr)
    else .ret p : Prog CompletedProcess).Contract _ _ _
  by_cases hstatus : p.returncode = 0
  · rw [if_neg (not_not.mpr hstatus)]
    rintro _ ⟨⟩
    exact hanswer rfl hstatus
  · rw [if_pos hstatus]
    rintro _ ⟨⟩

theorem cleanup_contract (server : ServerConfig) (ssh : Ssh) :
    (cleanupStaleSnapshots server ssh).Contract (E := Sys) (ListsStaleNames server ssh)
      (SparesForeign server ssh) fun _ => True := by
  have hbody : ((runOn server listCmd ssh).bind fun result =>
      Program.forEach (((splitlines result.stdout).map strip).filter (· ≠ "")) fun snap =>
        runCmd server ("zfs destroy -r " ++ snap) ssh).Contract (E := Sys)
          (ListsStaleNames server ssh) (SparesForeign server ssh) fun _ => True := by
    refine (runOn_list_contract server ssh).bind (fun p hp => ?_) fun _ _ => trivial
    obtain ⟨names, hstdout, hnames⟩ := hp p rfl
    have hread : splitlines p.stdout = names := by
      rw [hstdout]
      refine splitlines_unlines fun name hname c hc => ?_
      have hchar := (hnames name hname).chars c hc
      simp only [isNameChar, Bool.and_eq_true, Bool.not_eq_true'] at hchar
      exact hchar.1
    rw [hread]
    refine contract_of_performs (Program.performs_forEach fun snap hsnap => runCmd_performs ?_)
    obtain ⟨name, hname, rfl⟩ := List.mem_map.mp (List.mem_of_mem_filter hsnap)
    exact spares_destroy (hnames name hname).strip
  refine hbody.handle (fun _ _ => trivial) ?_
  rintro (_ | _ | _ | _ | _) - <;> trivial

theorem backupZfs_contract {server : ServerConfig} (hpool : IsDatasetName server.zfsPool)
    (backupDir : Path) (ssh : Ssh) (retentionCount : Int) (dryRun : Bool) :
    (backupZfs server backupDir ssh retentionCount dryRun).Contract (E := Sys)
      (ListsStaleNames server ssh) (SparesForeign server ssh) fun _ => True := by
  cases dryRun with
  | true => exact ⟨spares_of_not_run (by simp), fun _ _ => trivial⟩
  | false =>
    rw [backupZfs_eq_create_use]
    refine ⟨spares_of_not_run (by simp), fun t _ => ?_⟩
    change ((createSnapshot server ssh (buildTimestamp t)).bind fun _ =>
      useSnapshot server ssh backupDir retentionCount (buildTimestamp t)).Contract _ _ _
    rw [createSnapshot, Program.bind_assoc]
    refine (cleanup_contract server ssh).bind (fun _ _ => contract_of_performs ?_)
      fun _ _ => trivial
    have hcreate : SparesForeign server ssh (.run (runInvocation server
        ("zfs snapshot -r " ++ fullSnapshot server (buildTimestamp t)) ssh)) := by
      rintro _ ⟨⟩
      exact ⟨_, rfl, .inl ⟨t, rfl⟩⟩
    refine (performs_exceptSSH (runCmd_performs hcreate) fun _ =>
      Program.performs_raise _).bind fun _ =>
      Program.Performs.bind (Program.Performs.finallyDo ?_ ?_) fun _ => ?_
    · exact (sendArchive_performs server backupDir ssh _).mono fun o ho =>
        spares_of_not_run fun cmd hcmd => ho.quiet ⟨cmd, hcmd⟩
    · exact performs_exceptSSH (runCmd_performs (spares_destroy (isStaleName_fullSnapshot hpool t)))
        fun _ => Program.performs_ret ()
    · exact (applyRetention_performs _ retentionCount (spares_dir _)).bind fun _ =>
        Program.performs_ret ()

theorem backupServer_contract {server : ServerConfig} (hpool : IsDatasetName server.zfsPool)
    (settings : BackupSettings) (types : BackupType) (dryRun : Bool) :
    (backupServer backupSteps server (.ok settings) types dryRun).Contract (E := Sys)
      (ListsStaleNames server (sshFor server settings))
      (SparesForeign server (sshFor server settings)) fun _ => True := by
  have htry : ∀ {step : Prog Unit}, step.Contract (E := Sys)
        (ListsStaleNames server (sshFor server settings))
        (SparesForeign server (sshFor server settings)) (fun _ => True) →
      (tryStep step).Contract (E := Sys) (ListsStaleNames server (sshFor server settings))
        (SparesForeign server (sshFor server settings)) fun _ => True := by
    intro step h
    have hret : (step.bind fun _ => .ret ({} : Verdict)).Contract (E := Sys)
        (ListsStaleNames server (sshFor server settings))
        (SparesForeign server (sshFor server settings)) fun _ => True :=
      h.bind (fun _ _ => trivial) fun _ _ => trivial
    exact hret.handle (fun _ _ => trivial) fun _ _ => trivial
  have hconfig : (configPart backupSteps server settings (sshFor server settings) types
      dryRun).Performs (E := Sys) (SparesForeign server (sshFor server settings)) := by
    unfold configPart
    split
    · refine (tryStep_performs ?_).bind fun _ => (tryStep_performs ?_).bind fun _ => trivial
      · exact backupConfig_performs _ _ _ _ dryRun (spares_of_not_run (by simp))
          (fun _ => spares_file _) (spares_dir _)
      · refine backupPackages_performs _ dryRun (spares_of_not_run (by simp))
          (fun command hcommand => ?_) (fun _ _ _ => spares_file _) (spares_dir _)
        rintro _ ⟨⟩
        refine ⟨command, rfl, .inr (.inr (.inr ?_))⟩
        rcases List.mem_pair.mp hcommand with rfl | rfl <;> decide
    · trivial
  have hzfs : (zfsPart backupSteps server settings (sshFor server settings) types dryRun).Contract
      (E := Sys) (ListsStaleNames server (sshFor server settings))
      (SparesForeign server (sshFor server settings)) fun _ => True := by
    unfold zfsPart
    split
    · exact htry (backupZfs_contract hpool _ _ _ _)
    · trivial
  refine ⟨spares_of_not_run (by simp), fun _ _ => ?_⟩
  refine (contract_of_performs hconfig).bind (fun _ _ => ?_) fun _ _ => trivial
  refine hzfs.bind (fun _ _ => ?_) fun _ _ => trivial
  exact ⟨spares_of_not_run (by simp), fun _ _ => trivial⟩

end Contract

/-! The machines keep what the program does not make. -/

/-- The machine gives legal names and still has every snapshot of others. -/
structure KeepsForeign (before after : Host) : Prop where
  legal : LegalHost after
  kept : ∀ s ∈ before.snapshots, ¬ s.IsStale → s ∈ after.snapshots

theorem legal_of_ofName? {name : String} {root : Snapshot} (hname : IsStaleName name)
    (hroot : Snapshot.ofName? name = some root) : LegalSnapshot root := by
  unfold Snapshot.ofName? at hroot
  split at hroot
  · next dataset tag hsplit =>
    cases hroot
    have hpiece : ∀ piece, piece ∈ name.toList.splitOn '@' →
        IsDatasetName (String.ofList piece) := by
      intro piece hpiece c hc
      rw [String.toList_ofList] at hc
      refine ⟨hname.chars c ((infix_of_mem_splitOn hpiece).subset hc), ?_⟩
      rintro rfl
      exact notMem_of_mem_splitOn hpiece hc
    exact ⟨hpiece dataset (by simp [hsplit]), hpiece tag (by simp [hsplit])⟩
  · cases hroot

theorem KeepsForeign.create {before after : Host} (h : KeepsForeign before after)
    {root : Snapshot} (hroot : IsDatasetName root.tag) :
    KeepsForeign before (after.exec (.create root)).2 := by
  have hdatasets : (after.exec (.create root)).2.datasets = after.datasets := by
    simp only [Host.exec]
    split
    · rfl
    split <;> rfl
  have hgrows : ∀ s ∈ after.snapshots, s ∈ (after.exec (.create root)).2.snapshots := by
    intro s hs
    simp only [Host.exec]
    split
    · exact hs
    split
    · exact hs
    · exact List.mem_append_left _ hs
  refine ⟨⟨fun d hd => h.legal.datasets d (hdatasets ▸ hd), fun s hs => ?_⟩,
    fun s hs hforeign => hgrows s (h.kept s hs hforeign)⟩
  rcases mem_exec hs with hs | ⟨_, ⟨⟩, hcovers, hdataset, -⟩
  · exact h.legal.snapshots s hs
  · exact ⟨h.legal.datasets _ hdataset, hcovers.1 ▸ hroot⟩

theorem KeepsForeign.destroy {before after : Host} (h : KeepsForeign before after)
    {root : Snapshot} (hroot : root.IsStale) :
    KeepsForeign before (after.exec (.destroy root)).2 := by
  have hdatasets : (after.exec (.destroy root)).2.datasets = after.datasets := by
    simp only [Host.exec]
    split <;> rfl
  refine ⟨⟨fun d hd => h.legal.datasets d (hdatasets ▸ hd), fun s hs => ?_⟩,
    fun s hs hforeign => ?_⟩
  · rcases mem_exec hs with hs | ⟨_, ⟨⟩, -⟩
    exact h.legal.snapshots s hs
  · have hthere := h.kept s hs hforeign
    -- What `-r` covers has the tag of its root.
    have huncovered : ¬ root.Covers s := fun hcovers => hforeign (by
      rw [Snapshot.IsStale, hcovers.1]
      exact hroot)
    simp only [Host.exec]
    split
    · exact List.mem_filter.mpr ⟨hthere, by simpa using huncovered⟩
    · exact hthere

/-- A machine that keeps the snapshots of others does so with every command that spares them,
whether it gets lost or not. -/
theorem KeepsForeign.deliver {before after : Host} (h : KeepsForeign before after) {text : String}
    (htext : (∃ name, IsStaleName name ∧
        (text = "zfs snapshot -r " ++ name ∨ text = "zfs destroy -r " ++ name)) ∨
      text = listCmd ∨ ZfsCommand.ofText? text = none)
    (link : Delivery) (otherwise : Except OSError CompletedProcess) :
    KeepsForeign before (after.deliver link (ZfsCommand.ofText? text) otherwise).2 := by
  have hexec : ∀ command, ZfsCommand.ofText? text = some command →
      KeepsForeign before (after.exec command).2 := by
    intro command hcommand
    rcases htext with ⟨name, hname, rfl | rfl⟩ | rfl | hnone
    · rw [ofText?_create_name] at hcommand
      obtain ⟨root, hroot, rfl⟩ := Option.map_eq_some_iff.mp hcommand
      exact h.create (legal_of_ofName? hname hroot).tag
    · rw [ofText?_destroy_name] at hcommand
      obtain ⟨root, hroot, rfl⟩ := Option.map_eq_some_iff.mp hcommand
      obtain ⟨root', hroot', hstale⟩ := hname.exists_root
      rw [hroot] at hroot'
      exact h.destroy (Option.some.inj hroot' ▸ hstale)
    · rw [ofText?_list] at hcommand
      exact Option.some.inj hcommand ▸ h
    · rw [hnone] at hcommand
      cases hcommand
  cases hcommand : ZfsCommand.ofText? text with
  | none => rwa [Host.deliver_none]
  | some command => cases link with
    | answered => exact hexec command hcommand
    | unanswered => exact hexec command hcommand
    | lost => exact h

section Foreign

variable {H : Type} [DecidableEq H] {machine : Option String → H} {servers : List ServerConfig}
  {settings : BackupSettings} {types : BackupType} {dryRun : Bool}
  {link : Fin servers.length → Nat → Delivery} {env : Fin servers.length → Env} {width : Nat}
  {hosts : H → Host} {files : Files}
  {c : Pool Sys Error BackupResult (Site H servers.length) servers.length}

/-- A command that comes to no answer of a machine does not seem to have succeeded. -/
def NoFalseAnswer (env : Env) : Prop :=
  ∀ k cmd p, ZfsCommand.ofText? cmd.text ≠ none → env.run k cmd = .ok p → p.returncode ≠ 0

theorem site_listsStale {i : Fin servers.length} (hno : NoFalseAnswer (env i))
    {site : Site H servers.length} (hlegal : ∀ h, LegalHost (site.hosts h)) (o : Op) :
    ListsStaleNames (servers.get i) (sshFor (servers.get i) settings) o
      (siteHandler machine link env i o site).1 := by
  cases o with
  | run cmd =>
    rcases hanswer : (siteHandler machine link env i (.run cmd) site).1 with e | p
    · trivial
    rintro rfl hstatus
    simp only [siteHandler, text_runInvocation, ofText?_list] at hanswer
    have hdenied : ∀ k, (env i).run k (runInvocation (servers.get i) listCmd
        (sshFor (servers.get i) settings)) ≠ .ok p := by
      intro k hk
      refine hno k _ p ?_ hk hstatus
      rw [text_runInvocation, ofText?_list]
      exact Option.some_ne_none _
    cases hlink : link i (site.here.log i).length with
    | answered =>
      rw [hlink] at hanswer
      obtain rfl := Except.ok.inj hanswer
      refine ⟨_, rfl, fun name hname => ?_⟩
      obtain ⟨hmem, hgrep⟩ := List.mem_filter.mp hname
      obtain ⟨s, hs, rfl⟩ := List.mem_map.mp hmem
      exact ((hlegal _).snapshots s hs).isStaleName (of_decide_eq_true hgrep)
    | unanswered =>
      rw [hlink] at hanswer
      exact absurd hanswer (hdenied _)
    | lost =>
      rw [hlink] at hanswer
      exact absurd hanswer (hdenied _)
  | _ => trivial

/-- A snapshot that has not the tag prefix of the program survives everything: whatever the runs
of a pool do, in whatever order and on whatever machines, and whichever commands and answers get
lost. -/
theorem foreign_snapshots_stay (hlegal : ∀ h, LegalHost (hosts h))
    (hpools : ∀ s ∈ servers, IsDatasetName s.zfsPool) (hno : ∀ i, NoFalseAnswer (env i))
    (hc : Pool.Reaches (siteHandler machine link env) width
      (Pool.initial (backupPool backupSteps servers (.ok settings) types dryRun)
        ⟨hosts, ⟨files, fun _ => []⟩⟩) c) (h : H) {s : Snapshot} (hs : s ∈ (hosts h).snapshots)
    (hforeign : ¬ s.IsStale) : s ∈ (c.shared.hosts h).snapshots := by
  have hkeeps : (∀ i, (c.thread i).Contract (E := Sys)
      (ListsStaleNames (servers.get i) (sshFor (servers.get i) settings))
      (SparesForeign (servers.get i) (sshFor (servers.get i) settings)) fun _ => True) ∧
      ∀ h, KeepsForeign (hosts h) (c.shared.hosts h) := by
    refine Pool.Reaches.preserves_contract
      (J := fun site : Site H servers.length => ∀ h, KeepsForeign (hosts h) (site.hosts h))
      ?_ ?_ hc ?_ ?_
    · intro i o site _ hkeeps
      exact site_listsStale (hno i) (fun h => (hkeeps h).legal) o
    · intro i o site ho hkeeps h
      by_cases hrun : ∃ cmd, o = .run cmd
      · obtain ⟨cmd, rfl⟩ := hrun
        obtain ⟨text, rfl, htext⟩ := ho cmd rfl
        by_cases hh : h = machine (runInvocation (servers.get i) text
            (sshFor (servers.get i) settings)).destination?
        · subst hh
          simp only [siteHandler, Function.update_self, text_runInvocation]
          refine (hkeeps _).deliver ?_ _ _
          rcases htext with ⟨t, rfl⟩ | ⟨name, hname, rfl⟩ | htext
          · exact .inl ⟨_, isStaleName_fullSnapshot (hpools _ (List.getElem_mem _)) t, .inl rfl⟩
          · exact .inl ⟨name, hname, .inr rfl⟩
          · exact .inr htext
        · rw [siteHandler_hosts_of_ne hh]
          exact hkeeps h
      · rw [siteHandler_hosts_of_not_run fun cmd hcmd => hrun ⟨cmd, hcmd⟩]
        exact hkeeps h
    · exact fun i => backupServer_contract (hpools _ (List.getElem_mem _)) settings types dryRun
    · exact fun h => ⟨hlegal h, fun s hs _ => hs⟩
  exact (hkeeps.2 h).kept s hs hforeign

end Foreign

/-- A snapshot that somebody made by hand, and one of the program, below a pool. -/
def handmadeHosts : Option String → Host := fun _ =>
  ⟨["rpool", "tank", "tank/vm"],
    [⟨"tank/vm", "before-upgrade"⟩, ⟨"tank/vm", "pull_backup_2026-03-22_04-30-00"⟩]⟩

def silentEnv : Env := { sampleEnv (.ok ⟨1, [], "gone"⟩) with run := fun _ _ => .ok ⟨255, "", ""⟩ }

/-- A pool on that machine whose links lose every third command. -/
theorem foreign_snapshots_stay_sample :
    ∃ c, Pool.Reaches (siteHandler id (fun _ k => if k % 3 = 0 then .lost else .answered)
          fun _ => silentEnv) 2
        (Pool.initial (backupPool backupSteps twinServers (.ok sampleSettings) .all false)
          ⟨handmadeHosts, ⟨∅, fun _ => []⟩⟩) c ∧ c.Complete ∧
      ⟨"tank/vm", "before-upgrade"⟩ ∈ (c.shared.hosts (some "root@px.lan")).snapshots := by
  have hlegal : ∀ h, LegalHost (handmadeHosts h) := fun h => by
    have hnames : ∀ d ∈ ["rpool", "tank", "tank/vm"], IsDatasetName d := by decide
    refine ⟨hnames, fun s hs => ?_⟩
    rcases List.mem_pair.mp hs with rfl | rfl <;> exact ⟨by decide, by decide⟩
  have hno : NoFalseAnswer silentEnv := fun k cmd p _ hanswer => by
    cases hanswer
    decide
  obtain ⟨c, hc, hdone⟩ := Pool.exists_complete
    (h := siteHandler id (fun _ k => if k % 3 = 0 then .lost else .answered) fun _ => silentEnv)
    (show 0 < 2 by decide) (c := Pool.initial
      (backupPool backupSteps twinServers (.ok sampleSettings) .all false)
      ⟨handmadeHosts, ⟨∅, fun _ => []⟩⟩) (Nat.zero_le _)
  exact ⟨c, hc, hdone,
    foreign_snapshots_stay hlegal (by decide) (fun _ => hno) hc _ (by decide) (by decide)⟩

end SrvBackup.Specification
