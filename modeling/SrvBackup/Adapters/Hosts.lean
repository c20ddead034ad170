import SrvBackup.Adapters.Orchestrator

/-!
# The machines that a pool works on

The ZFS snapshots of every machine, and what the commands of `backup_zfs` do to them, which is
assumed of ZFS: `zfs list -t snapshot` lists every snapshot of a machine, `zfs snapshot -r` and
`zfs destroy -r` act on a dataset and on everything below it, and a snapshot that is there can be
destroyed, so that none is held, cloned or busy. Other commands change no snapshot.

`Site` is what the runs of a pool share: the machines, and the local files. A command can get
lost on its way to a machine, and its answer on the way back; a machine that refuses a command
and does nothing answers as a link would that loses it.
-/
namespace SrvBackup.Adapters

open SrvBackup.Domain SrvBackup.Effects SrvBackup.Storage SrvBackup.Text

/-- The snapshot `dataset@tag`. -/
structure Snapshot where
  dataset : String
  tag : String
  deriving DecidableEq, Repr

def Snapshot.name (s : Snapshot) : String := s.dataset ++ "@" ++ s.tag

def Snapshot.ofName? (name : String) : Option Snapshot :=
  match name.toList.splitOn '@' with
  | [dataset, tag] => some ⟨String.ofList dataset, String.ofList tag⟩
  | _ => none

/-- What `-r` on `root` acts on: the same tag on the dataset and on the datasets below it. -/
def Snapshot.Covers (root s : Snapshot) : Prop :=
  s.tag = root.tag ∧ (s.dataset = root.dataset ∨ (root.dataset ++ "/").toList <+: s.dataset.toList)

instance (root s : Snapshot) : Decidable (root.Covers s) := by
  unfold Snapshot.Covers; infer_instance

inductive ZfsCommand where
  | list
  | create (root : Snapshot)
  | destroy (root : Snapshot)
  deriving DecidableEq, Repr

/-- The command that a text is for the shell, if it is one that concerns snapshots. -/
def ZfsCommand.ofText? (text : String) : Option ZfsCommand :=
  if text = listCmd then some .list
  else
    match text.toList.dropPrefix? "zfs snapshot -r ".toList,
      text.toList.dropPrefix? "zfs destroy -r ".toList with
    | some name, _ => (Snapshot.ofName? (String.ofList name)).map .create
    | none, some name => (Snapshot.ofName? (String.ofList name)).map .destroy
    | none, none => none

structure Host where
  datasets : List String
  snapshots : List Snapshot := []

namespace Host

/-- The snapshots that `zfs snapshot -r root` makes. -/
def fresh (host : Host) (root : Snapshot) : List Snapshot :=
  (host.datasets.map fun d => ⟨d, root.tag⟩).filter fun s => root.Covers s

def exec (host : Host) : ZfsCommand → CompletedProcess × Host
  | .list =>
    let listed := (host.snapshots.map Snapshot.name).filter fun name =>
      "@pull_backup_".toList <:+: name.toList
    (⟨0, String.join (listed.map (· ++ "\n")), ""⟩, host)
  | .create root =>
    if root.dataset ∉ host.datasets then (⟨1, "", "dataset does not exist"⟩, host)
    else if ∃ s ∈ host.fresh root, s ∈ host.snapshots then
      (⟨1, "", "dataset already exists"⟩, host)
    else (⟨0, "", ""⟩, { host with snapshots := host.snapshots ++ host.fresh root })
  | .destroy root =>
    if ∃ s ∈ host.snapshots, root.Covers s then
      (⟨0, "", ""⟩, { host with snapshots := host.snapshots.filter fun s => ¬ root.Covers s })
    else (⟨1, "", "could not find any snapshots to destroy"⟩, host)

end Host

/-- What becomes of a command on its way to a machine and back. -/
inductive Delivery where
  | answered
  | unanswered
  | lost
  deriving DecidableEq, Repr

/-- A command on a machine. Without an answer of the machine, `otherwise` is what the caller
gets. -/
def Host.deliver (host : Host) (link : Delivery) (command : Option ZfsCommand)
    (otherwise : Except OSError CompletedProcess) : Except OSError CompletedProcess × Host :=
  match link, command with
  | .answered, some command => (.ok (host.exec command).1, (host.exec command).2)
  | .unanswered, some command => (otherwise, (host.exec command).2)
  | _, _ => (otherwise, host)

structure Site (H : Type) (n : Nat) where
  hosts : H → Host
  here : Machine n

/-- As `poolHandler`, with commands that are run on the machine they are for; `machine` says which
one that is. -/
def siteHandler {H : Type} [DecidableEq H] {n : Nat} (machine : Option String → H)
    (link : Fin n → Nat → Delivery) (env : Fin n → Env) (i : Fin n) : Handler Sys (Site H n) :=
  fun o site =>
    match o with
    | .run cmd =>
      let h := machine cmd.destination?
      let count := (site.here.log i).length
      let r := (site.hosts h).deliver (link i count) (ZfsCommand.ofText? cmd.text)
        ((env i).run count cmd)
      (r.1, ⟨Function.update site.hosts h r.2,
        site.here.put i ((site.here.world i).record (.run cmd) (r.1, site.here.files))⟩)
    | o =>
      let r := poolHandler env i o site.here
      (r.1, { site with here := r.2 })

/-- The machine that the commands for a server run on. -/
def machineOf {H : Type} (machine : Option String → H) (server : ServerConfig) (ssh : Ssh) : H :=
  machine (if server.isLocal then none else some (ssh.user ++ "@" ++ server.hostname))

theorem machine_runInvocation {H : Type} (machine : Option String → H) (server : ServerConfig)
    (command : String) (ssh : Ssh) :
    machine (runInvocation server command ssh).destination? = machineOf machine server ssh := by
  unfold runInvocation machineOf
  split
  · rfl
  · obtain ⟨options, hcmd⟩ := exists_buildSshCmd_eq server.hostname command ssh []
    rw [hcmd, Invocation.destination?, List.dropLast_concat, List.getLast?_concat]

/-- A text that is no snapshot command changes no machine. -/
theorem Host.deliver_none (host : Host) (link : Delivery)
    (otherwise : Except OSError CompletedProcess) :
    (host.deliver link none otherwise).2 = host := by
  cases link <;> rfl

section Handler

variable {H : Type} [DecidableEq H] {n : Nat} {machine : Option String → H}
  {link : Fin n → Nat → Delivery} {env : Fin n → Env} {i : Fin n} {site : Site H n}

/-- A command changes no machine but its own. -/
theorem siteHandler_hosts_of_ne {cmd : Invocation} {h : H} (hne : h ≠ machine cmd.destination?) :
    (siteHandler machine link env i (.run cmd) site).2.hosts h = site.hosts h :=
  Function.update_of_ne hne _ _

theorem siteHandler_hosts_of_text {cmd : Invocation} (hnone : ZfsCommand.ofText? cmd.text = none)
    (h : H) : (siteHandler machine link env i (.run cmd) site).2.hosts h = site.hosts h := by
  by_cases hh : h = machine cmd.destination?
  · subst hh
    simp [siteHandler, hnone, Host.deliver_none]
  · exact siteHandler_hosts_of_ne hh

/-- Only commands change machines. -/
theorem siteHandler_hosts_of_not_run {o : Op} (hrun : ∀ cmd, o ≠ .run cmd) (h : H) :
    (siteHandler machine link env i o site).2.hosts h = site.hosts h := by
  cases o with
  | run cmd => exact absurd rfl (hrun cmd)
  | _ => rfl

/-- An operation is added to the log of its own run. -/
theorem siteHandler_log (machine : Option String → H) (link : Fin n → Nat → Delivery)
    (env : Fin n → Env) (i : Fin n) (site : Site H n) (o : Op) :
    ∃ answer, (siteHandler machine link env i o site).2.here.log =
      Function.update site.here.log i (⟨o, answer⟩ :: site.here.log i) := by
  cases o <;> exact ⟨_, rfl⟩

end Handler

/-! ## Snapshot names in commands -/

/-- What the names that ZFS gives have in common: one `@`, no line break, no blank at an end. -/
structure Snapshot.Proper (s : Snapshot) : Prop where
  dataset : '@' ∉ s.dataset.toList
  tag : '@' ∉ s.tag.toList
  oneLine : ∀ c ∈ s.name.toList, isLineBreak c = false
  trimmed : strip s.name = s.name

instance (s : Snapshot) : Decidable s.Proper :=
  decidable_of_iff ('@' ∉ s.dataset.toList ∧ '@' ∉ s.tag.toList ∧
    (∀ c ∈ s.name.toList, isLineBreak c = false) ∧ strip s.name = s.name)
    ⟨fun ⟨h₁, h₂, h₃, h₄⟩ => ⟨h₁, h₂, h₃, h₄⟩, fun h => ⟨h.1, h.2, h.3, h.4⟩⟩

/-- The snapshot has the tag prefix of the program. -/
def Snapshot.IsStale (s : Snapshot) : Prop := "pull_backup_".toList <+: s.tag.toList

instance (s : Snapshot) : Decidable s.IsStale := by unfold Snapshot.IsStale; infer_instance

theorem Snapshot.toList_name (s : Snapshot) :
    s.name.toList = s.dataset.toList ++ '@' :: s.tag.toList := by
  simp [Snapshot.name, String.toList_append]

theorem Snapshot.Proper.ofName? {s : Snapshot} (hs : s.Proper) :
    Snapshot.ofName? s.name = some s := by
  have hsplit : s.name.toList.splitOn '@' = [s.dataset.toList, s.tag.toList] := by
    rw [s.toList_name, List.splitOn_append_cons_self_of_not_mem hs.dataset,
      List.splitOn_eq_singleton hs.tag]
  simp [Snapshot.ofName?, hsplit]

/-- `grep '@pull_backup_'` finds the names of the stale snapshots. -/
theorem Snapshot.Proper.grep_iff {s : Snapshot} (hs : s.Proper) :
    "@pull_backup_".toList <:+: s.name.toList ↔ s.IsStale := by
  rw [s.toList_name]
  constructor
  · rintro ⟨front, back, h⟩
    have hcut : front ++ '@' :: ("pull_backup_".toList ++ back) =
        s.dataset.toList ++ '@' :: s.tag.toList := by
      rw [← h]
      simp
    exact ⟨back, ((List.append_cons_inj_of_notMem hs.dataset hs.tag).mp hcut.symm).2.2.symm⟩
  · rintro ⟨back, h⟩
    exact ⟨s.dataset.toList, back, by rw [← h]; simp⟩

theorem Snapshot.covers_refl (s : Snapshot) : s.Covers s := ⟨rfl, .inl rfl⟩

theorem Snapshot.covers_trans {r s t : Snapshot} (hrs : r.Covers s) (hst : s.Covers t) :
    r.Covers t := by
  obtain ⟨htag, hdataset⟩ := hrs
  obtain ⟨htag', hdataset'⟩ := hst
  refine ⟨htag'.trans htag, ?_⟩
  rcases hdataset with h | h <;> rcases hdataset' with h' | h'
  · exact .inl (h'.trans h)
  · exact .inr (h ▸ h')
  · exact .inr (h' ▸ h)
  · refine .inr ((h.trans ?_).trans h')
    rw [String.toList_append]
    exact List.prefix_append _ _

theorem ofText?_list : ZfsCommand.ofText? listCmd = some .list := if_pos rfl

theorem ofText?_destroy {s : Snapshot} (hs : s.Proper) :
    ZfsCommand.ofText? ("zfs destroy -r " ++ s.name) = some (.destroy s) := by
  have htext : ("zfs destroy -r " ++ s.name).toList = "zfs destroy -r ".toList ++ s.name.toList :=
    String.toList_append
  have hlist : "zfs destroy -r " ++ s.name ≠ listCmd := by
    intro h
    have hfifth : some 'd' = listCmd.toList[4]? := by
      rw [← h, htext]
      rfl
    exact absurd hfifth (by decide)
  have hsnapshot : ("zfs destroy -r ".toList ++ s.name.toList).dropPrefix?
      "zfs snapshot -r ".toList = none := rfl
  rw [ZfsCommand.ofText?, if_neg hlist, htext, hsnapshot,
    List.dropPrefix?_append_of_beq _ (by decide)]
  simp [hs.ofName?]

/-! ## Machines that answer -/

section Answered

variable {H : Type} [DecidableEq H] {n : Nat} (machine : Option String → H)
  {link : Fin n → Nat → Delivery} (env : Fin n → Env) {i : Fin n} (server : ServerConfig)
  {text : String} (ssh : Ssh) {command : ZfsCommand}

/-- What a machine that answers gives to `runOn`, and what it leaves. -/
theorem run_runOn_site (hlink : ∀ k, link i k = .answered)
    (hcommand : ZfsCommand.ofText? text = some command) (site : Site H n) :
    ∃ here error, (runOn server text ssh).run (siteHandler machine link env i) site =
      (if ((site.hosts (machineOf machine server ssh)).exec command).1.returncode = 0
        then .ok ((site.hosts (machineOf machine server ssh)).exec command).1
        else .error (.sshConnection error),
      ⟨Function.update site.hosts (machineOf machine server ssh)
        ((site.hosts (machineOf machine server ssh)).exec command).2, here⟩) := by
  obtain ⟨failed, exited, hrun⟩ := exists_runCommand_eq server text ssh
  have hstep : ∃ here, siteHandler machine link env i (.run (runInvocation server text ssh)) site =
      (.ok ((site.hosts (machineOf machine server ssh)).exec command).1,
        ⟨Function.update site.hosts (machineOf machine server ssh)
          ((site.hosts (machineOf machine server ssh)).exec command).2, here⟩) := by
    simp only [siteHandler, machine_runInvocation machine, text_runInvocation, hcommand, hlink,
      Host.deliver]
    exact ⟨_, rfl⟩
  obtain ⟨here, hstep⟩ := hstep
  rw [hrun, run_runCommand failed exited hstep]
  exact ⟨here, _, rfl⟩

end Answered

end SrvBackup.Adapters
