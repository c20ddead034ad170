import SrvBackup.Specification.Snapshots
import SrvBackup.Text.Shell

/-!
# What a run destroys

After the attempt to create its snapshot, a run of `backupZfs` destroys that snapshot once, if
there is one, whatever the transfer does, and prunes old archives only behind a complete
transfer. Before it, and with this one command, it destroys snapshots with the tag prefix of the
program only: other names would be read as more than one operand.
-/
namespace SrvBackup.Specification

open SrvBackup.Domain SrvBackup.Effects SrvBackup.Storage SrvBackup.Text SrvBackup.Adapters

/-! ## Names in commands -/

/-- A character of ZFS names: it means nothing to the shell, unless it is a blank. -/
def isNameChar (c : Char) : Bool :=
  !isLineBreak c && (c = ' ' || (Shell.isOrdinary c && c ≠ '#'))

/-- The name of a dataset, as far as commands and listings go. -/
def IsDatasetName (name : String) : Prop := ∀ c ∈ name.toList, isNameChar c ∧ c ≠ '@'

instance (name : String) : Decidable (IsDatasetName name) := by
  unfold IsDatasetName; infer_instance

/-- The name of a snapshot with the tag prefix of the program. -/
structure IsStaleName (name : String) : Prop where
  chars : ∀ c ∈ name.toList, isNameChar c
  count_at : name.toList.count '@' ≤ 1
  tag : "@pull_backup_".toList <:+: name.toList

instance (name : String) : Decidable (IsStaleName name) :=
  decidable_of_iff ((∀ c ∈ name.toList, isNameChar c) ∧ name.toList.count '@' ≤ 1 ∧
    "@pull_backup_".toList <:+: name.toList) ⟨fun ⟨h₁, h₂, h₃⟩ => ⟨h₁, h₂, h₃⟩,
      fun h => ⟨h.1, h.2, h.3⟩⟩

/-- For the shell, the text is `zfs destroy -r`, and where it has one operand that is a snapshot
with the tag prefix of the program. With more operands the command fails. -/
def DestroysStale (text : String) : Prop :=
  ∃ names, Shell.read? text = some ⟨["zfs", "destroy", "-r"] ++ names, []⟩ ∧
    ∀ name, names = [name] → ∃ s, Snapshot.ofName? name = some s ∧ s.IsStale

/-- The text lists or creates snapshots, or destroys those of the program. -/
def SparesOthers (text : String) : Prop :=
  text = listCmd ∨
    (∃ names, Shell.read? text = some ⟨["zfs", "snapshot", "-r"] ++ names, []⟩) ∨
    DestroysStale text

theorem read?_of_nameChars {text : String} (htext : ∀ c ∈ text.toList, isNameChar c) :
    Shell.read? text = some ⟨Shell.blankWords text, []⟩ := by
  refine Shell.read?_eq_blankWords fun c hc => ?_
  have hname := htext c hc
  simp only [isNameChar, Bool.and_eq_true, Bool.or_eq_true, decide_eq_true_eq] at hname
  exact hname.2

theorem read?_append {command name : String} (hcommand : ∀ c ∈ command.toList, isNameChar c)
    (hname : ∀ c ∈ name.toList, isNameChar c) :
    Shell.read? (command ++ " " ++ name) =
      some ⟨Shell.blankWords command ++ Shell.blankWords name, []⟩ := by
  have hchars : ∀ c ∈ (command ++ " " ++ name).toList, isNameChar c := by
    intro c hc
    simp only [String.toList_append, List.mem_append] at hc
    rcases hc with (hc | hc) | hc
    · exact hcommand c hc
    · rw [List.mem_singleton.mp hc]
      decide
    · exact hname c hc
  have hwords : Shell.blankWords (command ++ " " ++ name) =
      Shell.blankWords command ++ Shell.blankWords name := by
    have htext : (command ++ " " ++ name).toList = command.toList ++ ' ' :: name.toList := by
      simp [String.toList_append]
    simp only [Shell.blankWords, htext, List.splitOn_append_cons_self, List.filter_append,
      List.map_append]
  rw [read?_of_nameChars hchars, hwords]

/-- The one word of a stale name is a snapshot with the tag prefix. -/
theorem IsStaleName.ofName? {name word : String} (hname : IsStaleName name)
    (hword : Shell.blankWords name = [word]) :
    ∃ s, Snapshot.ofName? word = some s ∧ s.IsStale := by
  have hblank : ' ' ∉ "@pull_backup_".toList := by decide
  obtain ⟨piece, hpiece, hin⟩ := (exists_infix_piece hblank name.toList).mpr hname.tag
  have hne : piece ≠ [] := by
    rintro rfl
    exact absurd (List.eq_nil_of_infix_nil hin) (by decide)
  have hmem : String.ofList piece ∈ Shell.blankWords name :=
    List.mem_map.mpr ⟨piece, List.mem_filter.mpr ⟨hpiece, by simpa using hne⟩, rfl⟩
  rw [hword, List.mem_singleton] at hmem
  obtain ⟨front, back, hparts⟩ := hin
  have hcount : piece.count '@' ≤ 1 :=
    ((infix_of_mem_splitOn hpiece).sublist.count_le '@').trans hname.count_at
  obtain ⟨tag, htag⟩ : ∃ tag, "pull_backup_".toList ++ back = tag := ⟨_, rfl⟩
  have hsplit : piece = front ++ '@' :: tag := by
    rw [← hparts, ← htag]
    simp
  rw [hsplit, List.count_append, List.count_cons_self] at hcount
  have hfront : '@' ∉ front := List.count_eq_zero.mp (by omega)
  have hback : '@' ∉ tag := List.count_eq_zero.mp (by omega)
  refine ⟨⟨String.ofList front, String.ofList tag⟩, ?_, ?_⟩
  · rw [← hmem, hsplit, Snapshot.ofName?, String.toList_ofList,
      List.splitOn_append_cons_self_of_not_mem hfront, List.splitOn_eq_singleton hback]
  · simp only [Snapshot.IsStale, String.toList_ofList]
    exact ⟨back, htag⟩

theorem destroysStale_of_isStaleName {name : String} (hname : IsStaleName name) :
    DestroysStale ("zfs destroy -r " ++ name) := by
  have hcommand : ∀ c ∈ "zfs destroy -r".toList, isNameChar c := by decide
  have hwords : Shell.blankWords "zfs destroy -r" = ["zfs", "destroy", "-r"] := by decide
  have hread := read?_append hcommand hname.chars
  rw [hwords] at hread
  exact ⟨Shell.blankWords name, hread, fun word hword => hname.ofName? hword⟩

theorem IsStaleName.strip {name : String} (hname : IsStaleName name) :
    IsStaleName (strip name) where
  chars c hc := hname.chars c ((strip_sublist name).mem hc)
  count_at := ((strip_sublist name).count_le '@').trans hname.count_at
  tag := infix_strip (by decide) (by decide) hname.tag

theorem isNameChar_of_isDigit {c : Char} (hc : c.isDigit) : isNameChar c := by
  have hrange : 48 ≤ c.toNat ∧ c.toNat ≤ 57 := by
    simp only [Char.isDigit, Bool.and_eq_true, decide_eq_true_eq, UInt32.le_iff_toNat_le] at hc
    exact hc
  have hbreak : isLineBreak c = false := by
    simp only [isLineBreak]
    grind
  have hordinary : Shell.isOrdinary c := by
    simp only [Shell.isOrdinary, decide_eq_true_eq]
    intro hmem
    simp only [List.mem_cons, List.not_mem_nil, or_false] at hmem
    rcases hmem with rfl | rfl | rfl | rfl | rfl | rfl | rfl | rfl | rfl | rfl | rfl | rfl | rfl |
      rfl | rfl <;> exact absurd hc (by decide)
  have hsharp : c ≠ '#' := by
    rintro rfl
    exact absurd hc (by decide)
  simp [isNameChar, hbreak, hordinary, hsharp]

/-- The name of the run's own snapshot. -/
theorem isStaleName_fullSnapshot {server : ServerConfig} (hpool : IsDatasetName server.zfsPool)
    (t : DateTime) : IsStaleName (fullSnapshot server (buildTimestamp t)) := by
  have hstamp : ∀ c ∈ (buildTimestamp t).toList, isNameChar c ∧ c ≠ '@' := by
    refine forall_mem_buildTimestamp (fun c hc => ⟨isNameChar_of_isDigit hc, ?_⟩) (by decide)
      (by decide) t
    rintro rfl
    exact absurd hc (by decide)
  have htext : (fullSnapshot server (buildTimestamp t)).toList = server.zfsPool.toList ++
      ("@pull_backup_".toList ++ (buildTimestamp t).toList) := by
    simp [fullSnapshot, buildSnapshotTag, String.toList_append]
  have hnone : ∀ cs : List Char, (∀ c ∈ cs, isNameChar c ∧ c ≠ '@') → cs.count '@' = 0 :=
    fun cs hcs => List.count_eq_zero.mpr fun hmem => (hcs _ hmem).2 rfl
  constructor
  · intro c hc
    rw [htext] at hc
    rcases List.mem_append.mp hc with hc | hc
    · exact (hpool c hc).1
    · rcases List.mem_append.mp hc with hc | hc
      · exact (by decide : ∀ c ∈ "@pull_backup_".toList, isNameChar c) c hc
      · exact (hstamp c hc).1
  · rw [htext, List.count_append, List.count_append, hnone _ hpool, hnone _ hstamp]
    decide
  · rw [htext]
    exact List.infix_append' _ _ _

/-! ## One command -/

section Run

variable {server : ServerConfig} {ssh : Ssh} {env : Env} {w w' : World}

/-- A command is one event, and whether it succeeded decides how the call ends. -/
theorem run_runOn_event (server : ServerConfig) (command : String) (ssh : Ssh) (env : Env)
    (w : World) :
    ∃ ev, ev.op = .run (runInvocation server command ssh) ∧
      ((∃ p, (runOn server command ssh).run env.handler w = (.ok p, ⟨w.files, ev :: w.log⟩) ∧
          env.run w.log.length (runInvocation server command ssh) = .ok p ∧ p.returncode = 0 ∧
          succeeded (runInvocation server command ssh) ev) ∨
        ∃ text, (runOn server command ssh).run env.handler w =
            (.error (.sshConnection text), ⟨w.files, ev :: w.log⟩) ∧
          succeeded (runInvocation server command ssh) ev = false) := by
  obtain ⟨failed, exited, hrun⟩ := exists_runCommand_eq server command ssh
  refine ⟨⟨.run (runInvocation server command ssh),
    env.run w.log.length (runInvocation server command ssh)⟩, rfl, ?_⟩
  rw [hrun]
  cases hanswer : env.run w.log.length (runInvocation server command ssh) with
  | error e =>
    refine .inr ⟨failed ++ ": " ++ e.text, ?_, rfl⟩
    simp only [runCommand, Program.bind_eq, Program.run_bind, run_exceptOSError,
      run_subprocessRun, hanswer, Except.mapError, Program.run_raise]
    simp only [Env.act, World.record, hanswer]
  | ok p =>
    have hstep : env.handler (.run (runInvocation server command ssh)) w =
        (.ok p, ⟨w.files, ⟨.run (runInvocation server command ssh), .ok p⟩ :: w.log⟩) := by
      simp only [Env.handler, Env.act, World.record, hanswer]
    rw [run_runCommand failed exited hstep]
    by_cases hstatus : p.returncode = 0
    · exact .inl ⟨p, by rw [if_pos hstatus], rfl, hstatus, by simp [succeeded, hstatus]⟩
    · exact .inr ⟨_, by rw [if_neg hstatus]; rfl, by simp [succeeded, hstatus]⟩

theorem run_runCmd_event (server : ServerConfig) (command : String) (ssh : Ssh) (env : Env)
    (w : World) :
    ∃ ev, ev.op = .run (runInvocation server command ssh) ∧
      (((runCmd server command ssh).run env.handler w = (.ok (), ⟨w.files, ev :: w.log⟩) ∧
          succeeded (runInvocation server command ssh) ev) ∨
        ∃ text, (runCmd server command ssh).run env.handler w =
            (.error (.sshConnection text), ⟨w.files, ev :: w.log⟩) ∧
          succeeded (runInvocation server command ssh) ev = false) := by
  obtain ⟨ev, hop, ⟨p, hrun, -, -, hok⟩ | ⟨text, hrun, hfail⟩⟩ :=
    run_runOn_event server command ssh env w
  · exact ⟨ev, hop, .inl ⟨Program.run_bind_ok hrun _, hok⟩⟩
  · exact ⟨ev, hop, .inr ⟨text, Program.run_bind_error hrun _, hfail⟩⟩

/-- The loop runs a destroy for some of the names, up to the first that fails. -/
theorem run_destroyEach_events (server : ServerConfig) (ssh : Ssh) (env : Env)
    (snaps : List String) (w : World) :
    ∃ r events, (Program.forEach snaps fun snap =>
        runCmd server ("zfs destroy -r " ++ snap) ssh).run env.handler w =
          (r, ⟨w.files, events ++ w.log⟩) ∧
      (r = .ok () ∨ ∃ text, r = .error (.sshConnection text)) ∧
      ∀ ev ∈ events, ∃ snap ∈ snaps,
        ev.op = .run (runInvocation server ("zfs destroy -r " ++ snap) ssh) := by
  induction snaps generalizing w with
  | nil => exact ⟨.ok (), [], rfl, .inl rfl, by simp⟩
  | cons snap snaps ih =>
    rw [Program.forEach]
    obtain ⟨ev, hop, ⟨hrun, -⟩ | ⟨text, hrun, -⟩⟩ :=
      run_runCmd_event server ("zfs destroy -r " ++ snap) ssh env w
    · obtain ⟨r, events, hloop, hr, hevents⟩ := ih ⟨w.files, ev :: w.log⟩
      refine ⟨r, events ++ [ev], ?_, hr, fun e he => ?_⟩
      · rw [Program.run_bind_ok hrun, hloop, List.append_assoc]
        rfl
      · rcases List.mem_append.mp he with he | he
        · obtain ⟨s, hs, hop⟩ := hevents e he
          exact ⟨s, by simp [hs], hop⟩
        · exact ⟨snap, by simp, List.mem_singleton.mp he ▸ hop⟩
    · refine ⟨_, [ev], Program.run_bind_error hrun _, .inr ⟨text, rfl⟩, fun e he => ?_⟩
      exact ⟨snap, by simp, List.mem_singleton.mp he ▸ hop⟩

/-- What the listing prints: names of snapshots with the tag prefix, one on each line. -/
def ListsStale (env : Env) (server : ServerConfig) (ssh : Ssh) : Prop :=
  ∀ n p, env.run n (runInvocation server listCmd ssh) = .ok p → p.returncode = 0 →
    ∃ names, p.stdout = unlines names ∧ ∀ name ∈ names, IsStaleName name

/-- The cleanup ends normally; it lists, and destroys stale snapshots. -/
theorem run_cleanup_events (hlist : ListsStale env server ssh) (w : World) :
    ∃ events, (cleanupStaleSnapshots server ssh).run env.handler w =
        (.ok (), ⟨w.files, events ++ w.log⟩) ∧
      ∀ ev ∈ events, ∃ text, ev.op = .run (runInvocation server text ssh) ∧
        (text = listCmd ∨ ∃ name, IsStaleName name ∧ text = "zfs destroy -r " ++ name) := by
  rw [cleanupStaleSnapshots, run_exceptSSH, Program.bind_eq, Program.run_bind]
  obtain ⟨ev, hop, ⟨p, hrun, hanswer, hstatus, -⟩ | ⟨text, hrun, -⟩⟩ :=
    run_runOn_event server listCmd ssh env w
  · obtain ⟨names, hstdout, hnames⟩ := hlist _ p hanswer hstatus
    have hread : splitlines p.stdout = names := by
      rw [hstdout]
      refine splitlines_unlines fun name hname c hc => ?_
      have hchar := (hnames name hname).chars c hc
      simp only [isNameChar, Bool.and_eq_true, Bool.not_eq_true'] at hchar
      exact hchar.1
    simp only [hrun, hread]
    obtain ⟨r, events, hloop, hr, hevents⟩ := run_destroyEach_events server ssh env
      ((names.map strip).filter (· ≠ "")) ⟨w.files, ev :: w.log⟩
    rw [hloop]
    refine ⟨events ++ [ev], ?_, fun e he => ?_⟩
    · rw [List.append_assoc]
      rcases hr with rfl | ⟨text, rfl⟩ <;> rfl
    · rcases List.mem_append.mp he with he | he
      · obtain ⟨snap, hsnap, hop⟩ := hevents e he
        obtain ⟨name, hname, rfl⟩ := List.mem_map.mp (List.mem_of_mem_filter hsnap)
        exact ⟨_, hop, .inr ⟨_, (hnames name hname).strip, rfl⟩⟩
      · exact ⟨listCmd, List.mem_singleton.mp he ▸ hop, .inl rfl⟩
  · rw [hrun]
    refine ⟨[ev], rfl, fun e he => ⟨listCmd, List.mem_singleton.mp he ▸ hop, .inl rfl⟩⟩

/-- A command whose failure is ignored is one event. -/
theorem run_ignored_event (server : ServerConfig) (command : String) (ssh : Ssh) (env : Env)
    (w : World) :
    ∃ ev, ev.op = .run (runInvocation server command ssh) ∧
      (exceptSSH (runCmd server command ssh) fun _ => pure ()).run env.handler w =
        (.ok (), ⟨w.files, ev :: w.log⟩) := by
  obtain ⟨ev, hop, ⟨hrun, -⟩ | ⟨text, hrun, -⟩⟩ := run_runCmd_event server command ssh env w
  · exact ⟨ev, hop, by rw [run_exceptSSH, hrun]⟩
  · exact ⟨ev, hop, by rw [run_exceptSSH, hrun]; rfl⟩

/-! ## The transfer -/

/-- An operation of a transfer to a file. -/
def TransferOp (send : Invocation) (dest : Path) : Op → Prop
  | .mkdir path => path = dest.parent
  | .openWrite path | .unlink path | .stat path => path = dest
  | .popen cmd path => cmd = send ∧ path = dest
  | _ => False

theorem sendArchive_performs (server : ServerConfig) (backupDir : Path) (ssh : Ssh)
    (timestamp : String) :
    (sendArchive server backupDir ssh timestamp).Performs (E := Sys)
      (TransferOp (pipeInvocation server (sendCmd server timestamp) ssh)
        (snapshotPath server backupDir timestamp)) := by
  obtain ⟨failed, exited, hpipe⟩ := exists_pipeToFile_eq server (sendCmd server timestamp)
    (snapshotPath server backupDir timestamp) ssh
  simp only [sendArchive, pipeCmd, hpipe]
  refine Program.Performs.bind (performs_exceptSSH ?_ fun _ => Program.performs_raise _)
    fun _ => Program.Performs.bind (performs_stat ?_) fun _ => Program.performs_ret ()
  · exact pipeToFile_performs failed exited rfl rfl ⟨rfl, rfl⟩ rfl
  · rfl

/-- The transfer to the file ended well, and the file could be looked at. -/
def Complete (send : Invocation) (dest : Path) (events : List Event) : Prop :=
  (∃ p : PipedProcess, ⟨.popen send dest, .ok p⟩ ∈ events ∧ p.returncode = 0) ∧
    ∃ size : Nat, ⟨.stat dest, .ok size⟩ ∈ events

theorem log_of_pipeToFile {cmd : Invocation} {failed exited : String} {path : Path}
    (h : (pipeToFile cmd failed exited path).run env.handler w = (.ok (), w')) :
    ∃ (p : PipedProcess) (events : List Event), p.returncode = 0 ∧
      w'.log = ⟨.popen cmd path, .ok p⟩ :: (events ++ w.log) := by
  obtain ⟨_, w₁, hmkdir, h⟩ := Program.run_bind_eq_ok h
  obtain ⟨_, w₂, hopen, h⟩ := Program.run_bind_eq_ok h
  obtain ⟨p, w₃, hpopen, h⟩ := Program.run_bind_eq_ok h
  obtain ⟨events₁, hlog₁, -⟩ := log_run (Program.performs_true (mkdir path.parent)) env w
  obtain ⟨events₂, hlog₂, -⟩ := log_run (Program.performs_true (openWrite path)) env w₁
  rw [hmkdir] at hlog₁
  rw [hopen, hlog₁] at hlog₂
  split at h
  · obtain ⟨_, w₄, -, h⟩ := Program.run_bind_eq_ok h
    cases h
  · next hstatus =>
    cases h
    refine ⟨p, events₂ ++ events₁, not_not.mp hstatus, ?_⟩
    rw [run_exceptOSError, run_popen] at hpopen
    cases hanswer : (env.act w₂.log.length (.popen cmd path) w₂.files).1 with
    | error e =>
      simp only [hanswer, Except.mapError] at hpopen
      cases hpopen
    | ok p' =>
      simp only [hanswer, Except.mapError, Prod.mk.injEq, Except.ok.injEq] at hpopen
      rw [← hpopen.2, ← hpopen.1, ← hanswer, List.append_assoc, ← hlog₂]
      rfl

/-- What a transfer that ends normally has done. -/
theorem complete_of_sendArchive {backupDir : Path} {timestamp : String} {events : List Event}
    (h : (sendArchive server backupDir ssh timestamp).run env.handler w = (.ok (), w'))
    (hlog : w'.log = events ++ w.log) :
    Complete (pipeInvocation server (sendCmd server timestamp) ssh)
      (snapshotPath server backupDir timestamp) events := by
  obtain ⟨failed, exited, hpipe⟩ := exists_pipeToFile_eq server (sendCmd server timestamp)
    (snapshotPath server backupDir timestamp) ssh
  simp only [sendArchive, pipeCmd, hpipe] at h
  obtain ⟨_, w₁, hsend, h⟩ := Program.run_bind_eq_ok h
  obtain ⟨size, w₂, hstat, h⟩ := Program.run_bind_eq_ok h
  cases h
  have hpiped : (pipeToFile (pipeInvocation server (sendCmd server timestamp) ssh) failed exited
      (snapshotPath server backupDir timestamp)).run env.handler w = (.ok (), w₁) := by
    rw [run_exceptSSH] at hsend
    split at hsend
    · cases hsend
    · exact hsend
  obtain ⟨p, before, hstatus, hlog₁⟩ := log_of_pipeToFile hpiped
  rw [run_stat] at hstat
  cases hanswer : (env.act w₁.log.length (.stat (snapshotPath server backupDir timestamp))
      w₁.files).1 with
  | error e =>
    simp only [hanswer, Except.mapError] at hstat
    cases hstat
  | ok size' =>
    simp only [hanswer, Except.mapError, Prod.mk.injEq, Except.ok.injEq] at hstat
    have hwhole : events ++ w.log = (⟨.stat (snapshotPath server backupDir timestamp), .ok size'⟩ ::
        ⟨.popen (pipeInvocation server (sendCmd server timestamp) ssh)
          (snapshotPath server backupDir timestamp), .ok p⟩ :: before) ++ w.log := by
      rw [← hlog, ← hstat.2, ← hanswer, List.cons_append, List.cons_append, ← hlog₁]
      rfl
    have hevents := List.append_cancel_right hwhole
    exact ⟨⟨p, by simp [hevents], hstatus⟩, size', by simp [hevents]⟩

/-! ## The whole run -/

/-- The operation looks for archives, or deletes one that is not the run's own. -/
def Prunes (dest : Path) : Op → Prop
  | .isDir _ | .isFile _ | .glob _ _ => True
  | .unlink path => path ≠ dest
  | _ => False

/-- What comes after the attempt `c` to create the snapshot: nothing, if that failed; otherwise
the transfer, one destroy of the snapshot, and the pruning, the last only after a complete
transfer. -/
structure OwnDestroyed (create destroy send : Invocation) (dest : Path) (c : Event)
    (rest : List Event) : Prop where
  notCreated : succeeded create c = false → rest = []
  created : succeeded create c → ∃ during d after, rest = during ++ d :: after ∧
    d.op = .run destroy ∧ (∀ ev ∈ during, TransferOp send dest ev.op) ∧
    (∀ ev ∈ after, ¬ RunsCommand ev.op ∧ ∀ cmd path, ev.op ≠ .popen cmd path) ∧
    (after ≠ [] → Complete send dest during)

theorem createCmd_ne (name full : String) :
    "zfs destroy -r " ++ name ≠ "zfs snapshot -r " ++ full := by
  intro h
  have hfifth := congrArg (fun text : String => text.toList[4]?) h
  simp [String.toList_append] at hfifth

theorem listCmd_ne (full : String) : listCmd ≠ "zfs snapshot -r " ++ full := by
  intro h
  have hfifth := congrArg (fun text : String => text.toList[4]?) h
  simp [String.toList_append, listCmd] at hfifth

/-- Commands on a server with different texts differ. -/
theorem runInvocation_inj {text text' : String}
    (h : runInvocation server text ssh = runInvocation server text' ssh) : text = text' := by
  simpa using congrArg Invocation.text h

theorem TransferOp.quiet {send : Invocation} {dest : Path} {o : Op} (h : TransferOp send dest o) :
    ¬ RunsCommand o := by
  rintro ⟨cmd, rfl⟩
  exact h

/-- An operation of the pruning. -/
def PruningOp (o : Op) : Prop := ¬ RunsCommand o ∧ ∀ cmd path, o ≠ .popen cmd path

theorem applyRetention_prunes (directory : Path) (pattern : String) (keep : Int) :
    (applyRetention directory pattern keep).Performs (E := Sys) PruningOp := by
  have hop : ∀ o, (∀ cmd, o ≠ .run cmd) → (∀ cmd path, o ≠ .popen cmd path) → PruningOp o :=
    fun o hrun hpopen => ⟨fun ⟨cmd, hcmd⟩ => hrun cmd hcmd, hpopen⟩
  refine applyRetention_performs _ keep ?_
  constructor <;> intros <;> exact hop _ (by simp) (by simp)

variable (server ssh) (backupDir : Path) (retentionCount : Int) (timestamp : String)

/-- The cleanup, and the attempt to create the snapshot. -/
def createSnapshot : Prog Unit :=
  (cleanupStaleSnapshots server ssh).bind fun _ =>
    exceptSSH (runCmd server ("zfs snapshot -r " ++ fullSnapshot server timestamp) ssh) fun text =>
      .raise (.snapshot ("Snapshot creation failed on " ++ server.name ++ ": " ++ text))

/-- What a run does with the snapshot. -/
def useSnapshot : Prog Unit :=
  (Program.finallyDo (sendArchive server backupDir ssh timestamp)
    (exceptSSH (runCmd server ("zfs destroy -r " ++ fullSnapshot server timestamp) ssh)
      fun _ => pure ())).bind fun _ =>
    (applyRetention (snapshotsDir server backupDir) "*_snapshot_*.zfs.gz" retentionCount).bind
      fun _ => pure ()

theorem backupZfs_eq_create_use :
    backupZfs server backupDir ssh retentionCount false = now.bind fun t =>
      (createSnapshot server ssh (buildTimestamp t)).bind fun _ =>
        useSnapshot server ssh backupDir retentionCount (buildTimestamp t) := by
  rw [backupZfs_eq]
  simp only [zfsTransfer, createSnapshot, useSnapshot, Program.bind_eq, Program.bind_assoc]

/-- Other answers to commands change nothing in the result once the snapshot is there. -/
theorem useSnapshot_result (env : Env)
    (answer : Nat → Invocation → Except OSError CompletedProcess) (v : World) :
    ((useSnapshot server ssh backupDir retentionCount timestamp).run (env.withRun answer).handler
        v).1 =
      ((useSnapshot server ssh backupDir retentionCount timestamp).run env.handler v).1 := by
  have hsend := run_withRun_of_quiet env answer (w := v)
    ((sendArchive_performs server backupDir ssh timestamp).mono fun _ => TransferOp.quiet) rfl rfl
  rw [useSnapshot, Program.run_bind, Program.run_bind, Program.run_finallyDo,
    Program.run_finallyDo]
  generalize (sendArchive server backupDir ssh timestamp).run env.handler v = r at hsend ⊢
  generalize (sendArchive server backupDir ssh timestamp).run (env.withRun answer).handler v = r'
    at hsend ⊢
  obtain ⟨result, u⟩ := r
  obtain ⟨result', u'⟩ := r'
  obtain ⟨rfl, hfiles, hlength⟩ := hsend
  obtain ⟨d, -, hdestroy⟩ := run_ignored_event server
    ("zfs destroy -r " ++ fullSnapshot server timestamp) ssh env u
  obtain ⟨d', -, hdestroy'⟩ := run_ignored_event server
    ("zfs destroy -r " ++ fullSnapshot server timestamp) ssh (env.withRun answer) u'
  simp only [hdestroy, hdestroy']
  cases result' with
  | error e => rfl
  | ok _ =>
    have hprunes : ((applyRetention (snapshotsDir server backupDir) "*_snapshot_*.zfs.gz"
        retentionCount).bind fun _ => pure ()).Performs (E := Sys) fun o => ¬ RunsCommand o :=
      ((applyRetention_prunes _ _ _).mono fun _ h => h.1).bind fun _ => trivial
    have hfiles' : (World.mk u'.files (d' :: u'.log)).files =
        (World.mk u.files (d :: u.log)).files := hfiles
    have hlength' : (World.mk u'.files (d' :: u'.log)).log.length =
        (World.mk u.files (d :: u.log)).log.length := congrArg (· + 1) hlength
    exact (run_withRun_of_quiet env answer hprunes hfiles' hlength').1

/-- What a run does once the snapshot is there. -/
theorem useSnapshot_events (env : Env) (v : World) :
    ∃ during d after,
      ((useSnapshot server ssh backupDir retentionCount timestamp).run env.handler v).2.log =
        (during ++ d :: after).reverse ++ v.log ∧
      d.op = .run (runInvocation server ("zfs destroy -r " ++ fullSnapshot server timestamp) ssh) ∧
      (∀ ev ∈ during, TransferOp (pipeInvocation server (sendCmd server timestamp) ssh)
        (snapshotPath server backupDir timestamp) ev.op) ∧
      (∀ ev ∈ after, PruningOp ev.op) ∧
      (after ≠ [] → Complete (pipeInvocation server (sendCmd server timestamp) ssh)
        (snapshotPath server backupDir timestamp) during) := by
  obtain ⟨during, hlog, hduring⟩ := log_run (sendArchive_performs server backupDir ssh timestamp)
    env v
  have hcomplete : ∀ u, (sendArchive server backupDir ssh timestamp).run env.handler v =
      (.ok (), u) → Complete (pipeInvocation server (sendCmd server timestamp) ssh)
        (snapshotPath server backupDir timestamp) during :=
    fun u hu => complete_of_sendArchive hu (by rw [← hlog, hu])
  rw [useSnapshot, Program.run_bind, Program.run_finallyDo]
  generalize (sendArchive server backupDir ssh timestamp).run env.handler v = r at hlog hcomplete ⊢
  obtain ⟨result, u⟩ := r
  obtain ⟨d, hop, hdestroy⟩ := run_ignored_event server
    ("zfs destroy -r " ++ fullSnapshot server timestamp) ssh env u
  simp only [hdestroy]
  dsimp only at hlog
  cases result with
  | error e =>
    refine ⟨during.reverse, d, [], ?_, hop, by simpa using hduring, by simp, by simp⟩
    simp [hlog]
  | ok _ =>
    obtain ⟨after, hafterLog, hafter⟩ := log_run (((applyRetention_prunes
      (snapshotsDir server backupDir) "*_snapshot_*.zfs.gz" retentionCount).bind
        fun _ => Program.performs_ret ())) env ⟨u.files, d :: u.log⟩
    refine ⟨during.reverse, d, after.reverse, ?_, hop, by simpa using hduring,
      by simpa using hafter, fun _ => ?_⟩
    · rw [Program.pure_eq, hafterLog]
      simp [hlog]
    · have h := hcomplete u rfl
      simpa [Complete] using h

/-- How the first part of a run ends: without the snapshot, or with it. -/
theorem createSnapshot_events (hlist : ListsStale env server ssh) (w : World) :
    ∃ before c r, (createSnapshot server ssh timestamp).run env.handler w =
        (r, ⟨w.files, (before ++ [c]).reverse ++ w.log⟩) ∧
      c.op = .run (runInvocation server ("zfs snapshot -r " ++ fullSnapshot server timestamp)
        ssh) ∧
      (∀ ev ∈ before, ∃ text, ev.op = .run (runInvocation server text ssh) ∧
        (text = listCmd ∨ ∃ name, IsStaleName name ∧ text = "zfs destroy -r " ++ name)) ∧
      ((r = .ok () ∧ succeeded (runInvocation server
          ("zfs snapshot -r " ++ fullSnapshot server timestamp) ssh) c) ∨
        ∃ e, r = .error e ∧ succeeded (runInvocation server
          ("zfs snapshot -r " ++ fullSnapshot server timestamp) ssh) c = false) := by
  obtain ⟨events, hclean, hevents⟩ := run_cleanup_events hlist w
  obtain ⟨c, hop, ⟨hcreate, hok⟩ | ⟨text, hcreate, hfail⟩⟩ := run_runCmd_event server
    ("zfs snapshot -r " ++ fullSnapshot server timestamp) ssh env ⟨w.files, events ++ w.log⟩
  · refine ⟨events.reverse, c, .ok (), ?_, hop, by simpa using hevents, .inl ⟨rfl, hok⟩⟩
    rw [createSnapshot, Program.run_bind_ok hclean, run_exceptSSH, hcreate]
    simp
  · refine ⟨events.reverse, c, .error (.snapshot ("Snapshot creation failed on " ++ server.name ++
      ": " ++ text)), ?_, hop, by simpa using hevents, .inr ⟨_, rfl, hfail⟩⟩
    rw [createSnapshot, Program.run_bind_ok hclean, run_exceptSSH, hcreate]
    simp

/-- The first part does not meet the answers that come after it. -/
theorem createSnapshot_withRun {w : World} {events : List Event} {r : Except Error Unit}
    (hcreate : (createSnapshot server ssh timestamp).run env.handler w =
      (r, ⟨w.files, events.reverse ++ w.log⟩))
    {answer : Nat → Invocation → Except OSError CompletedProcess}
    (hanswer : ∀ n cmd, n < w.log.length + events.length → answer n cmd = env.run n cmd) :
    (createSnapshot server ssh timestamp).run (env.withRun answer).handler w =
      (r, ⟨w.files, events.reverse ++ w.log⟩) := by
  rw [run_withRun_until (m := w.log.length + events.length) ?_ ?_, hcreate]
  · exact fun n hn => funext fun cmd => hanswer n cmd hn
  · rw [hcreate]
    simp only [List.length_append, List.length_reverse]
    omega

variable {server ssh} {full : String} {ev : Event}

/-- The cleanup makes no snapshot, prunes nothing and spares the snapshots of others. -/
theorem cleanup_event_spares {dest : Path}
    (h : ∃ text, ev.op = .run (runInvocation server text ssh) ∧
      (text = listCmd ∨ ∃ name, IsStaleName name ∧ text = "zfs destroy -r " ++ name)) :
    ev.op ≠ .run (runInvocation server ("zfs snapshot -r " ++ full) ssh) ∧ ¬ Prunes dest ev.op ∧
      ∀ cmd, ev.op = .run cmd → SparesOthers cmd.text := by
  obtain ⟨text, hevent, htext⟩ := h
  rw [hevent]
  refine ⟨fun h => ?_, id, ?_⟩
  · have hsame := runInvocation_inj (Op.run.inj h)
    rcases htext with rfl | ⟨name, -, rfl⟩
    · exact listCmd_ne _ hsame
    · exact createCmd_ne _ _ hsame
  · rintro _ ⟨⟩
    rw [text_runInvocation]
    rcases htext with rfl | ⟨name, hname, rfl⟩
    · exact .inl rfl
    · exact .inr (.inr (destroysStale_of_isStaleName hname))

theorem create_spares (hfull : IsStaleName full)
    (hop : ev.op = .run (runInvocation server ("zfs snapshot -r " ++ full) ssh)) :
    ∀ cmd, ev.op = .run cmd → SparesOthers cmd.text := by
  rw [hop]
  rintro _ ⟨⟩
  have hread := read?_append (by decide : ∀ c ∈ "zfs snapshot -r".toList, isNameChar c)
    hfull.chars
  rw [text_runInvocation]
  exact .inr (.inl ⟨_, hread⟩)

/-- With the snapshot in place, only its own destroy is a command without a file. -/
theorem use_spares {send : Invocation} {dest : Path} {during after : List Event}
    (hfull : IsStaleName full)
    (hop : ev.op = .run (runInvocation server ("zfs destroy -r " ++ full) ssh))
    (hduring : ∀ e ∈ during, TransferOp send dest e.op) (hafter : ∀ e ∈ after, PruningOp e.op) :
    ∀ e ∈ during ++ ev :: after, ∀ cmd, e.op = .run cmd → SparesOthers cmd.text := by
  intro e he cmd hcmd
  rcases List.mem_append.mp he with he | he
  · exact absurd ⟨cmd, hcmd⟩ (hduring e he).quiet
  rcases List.mem_cons.mp he with rfl | he
  · obtain rfl := Op.run.inj (hop.symm.trans hcmd)
    rw [text_runInvocation]
    exact .inr (.inr (destroysStale_of_isStaleName hfull))
  · exact absurd ⟨cmd, hcmd⟩ (hafter e he).1

end Run

/-- A run destroys its own snapshot once where it has made it, and no snapshot without the tag
prefix; it prunes only behind a complete transfer; and how the destroy ends changes nothing in
the result. -/
theorem backupZfs_ownDestroyed {server : ServerConfig} {ssh : Ssh} {env : Env}
    (hpool : IsDatasetName server.zfsPool) (hlist : ListsStale env server ssh) (backupDir : Path)
    (retentionCount : Int) (w : World) :
    let timestamp := buildTimestamp (env.clock w.log.length)
    let create := runInvocation server ("zfs snapshot -r " ++ fullSnapshot server timestamp) ssh
    let destroy := runInvocation server ("zfs destroy -r " ++ fullSnapshot server timestamp) ssh
    let send := pipeInvocation server (sendCmd server timestamp) ssh
    let dest := snapshotPath server backupDir timestamp
    let run := fun env' : Env =>
      (backupZfs server backupDir ssh retentionCount false).run env'.handler w
    ∃ before c rest, (run env).2.log = (before ++ c :: rest).reverse ++ w.log ∧
      c.op = .run create ∧ (∀ ev ∈ before, ev.op ≠ .run create ∧ ¬ Prunes dest ev.op) ∧
      OwnDestroyed create destroy send dest c rest ∧
      (∀ ev ∈ before ++ c :: rest, ∀ cmd, ev.op = .run cmd → SparesOthers cmd.text) ∧
      ∀ answer : Nat → Invocation → Except OSError CompletedProcess,
        (∀ n cmd, n ≤ w.log.length + before.length ∨ cmd ≠ destroy →
          answer n cmd = env.run n cmd) →
        (run (env.withRun answer)).1 = (run env).1 := by
  intro timestamp create destroy send dest run
  let w₀ : World := w.record .now (env.act w.log.length .now w.files)
  have hlength : w₀.log.length = w.log.length + 1 := rfl
  have hrun : ∀ answer, run (env.withRun answer) =
      ((createSnapshot server ssh timestamp).bind fun _ =>
        useSnapshot server ssh backupDir retentionCount timestamp).run
          (env.withRun answer).handler w₀ := by
    intro answer
    simp only [run, backupZfs_eq_create_use]
    rfl
  obtain ⟨before, c, r, hcreate, hop, hbefore, hr⟩ := createSnapshot_events server ssh timestamp
    hlist w₀
  have hsame : ∀ answer : Nat → Invocation → Except OSError CompletedProcess,
      (∀ n cmd, n ≤ w.log.length + (before.length + 1) ∨ cmd ≠ destroy →
        answer n cmd = env.run n cmd) →
      (createSnapshot server ssh timestamp).run (env.withRun answer).handler w₀ =
        (r, ⟨w₀.files, (before ++ [c]).reverse ++ w₀.log⟩) := by
    intro answer hanswer
    refine createSnapshot_withRun server ssh timestamp hcreate fun n cmd hn =>
      hanswer n cmd (.inl ?_)
    rw [hlength, List.length_append, List.length_singleton] at hn
    omega
  have hown : ∀ ev ∈ (⟨.now, env.clock w.log.length⟩ : Event) :: before,
      ev.op ≠ .run create ∧ ¬ Prunes dest ev.op ∧
        ∀ cmd, ev.op = .run cmd → SparesOthers cmd.text := by
    intro ev hev
    rcases List.mem_cons.mp hev with rfl | hev
    · exact ⟨by simp, id, by simp⟩
    · exact cleanup_event_spares (hbefore ev hev)
  have hfull := isStaleName_fullSnapshot hpool (env.clock w.log.length)
  have hspares : ∀ rest : List Event,
      (∀ ev ∈ rest, ∀ cmd, ev.op = .run cmd → SparesOthers cmd.text) →
      ∀ ev ∈ (⟨.now, env.clock w.log.length⟩ :: before) ++ c :: rest,
        ∀ cmd, ev.op = .run cmd → SparesOthers cmd.text := by
    intro rest hrest ev hev
    rcases List.mem_append.mp hev with hev | hev
    · exact (hown ev hev).2.2
    rcases List.mem_cons.mp hev with rfl | hev
    · exact create_spares hfull hop
    · exact hrest ev hev
  have hself : run env = ((createSnapshot server ssh timestamp).bind fun _ =>
      useSnapshot server ssh backupDir retentionCount timestamp).run env.handler w₀ := hrun env.run
  rcases hr with ⟨rfl, hok⟩ | ⟨e, rfl, hfail⟩
  · obtain ⟨during, d, after, hlog, hdop, hduring, hafter, hcomplete⟩ :=
      useSnapshot_events server ssh backupDir retentionCount timestamp env
        ⟨w₀.files, (before ++ [c]).reverse ++ w₀.log⟩
    refine ⟨⟨.now, env.clock w.log.length⟩ :: before, c, during ++ d :: after, ?_, hop,
      fun ev hev => ⟨(hown ev hev).1, (hown ev hev).2.1⟩, ⟨fun h => ?_, fun _ =>
        ⟨during, d, after, rfl, hdop, hduring, hafter, hcomplete⟩⟩,
      hspares _ (use_spares hfull hdop hduring hafter), fun answer hanswer => ?_⟩
    · rw [hself, Program.run_bind_ok hcreate, hlog]
      simp [w₀, World.record, Env.act]
    · rw [hok] at h
      cases h
    · rw [hself, hrun, Program.run_bind_ok hcreate, Program.run_bind_ok (hsame answer hanswer)]
      exact useSnapshot_result server ssh backupDir retentionCount timestamp env answer _
  · refine ⟨⟨.now, env.clock w.log.length⟩ :: before, c, [], ?_, hop,
      fun ev hev => ⟨(hown ev hev).1, (hown ev hev).2.1⟩, ⟨fun _ => rfl, fun h => ?_⟩,
      hspares [] (by simp), fun answer hanswer => ?_⟩
    · rw [hself, Program.run_bind_error hcreate]
      simp [w₀, World.record, Env.act]
    · rw [hfail] at h
      cases h
    · rw [hself, hrun, Program.run_bind_error hcreate,
        Program.run_bind_error (hsame answer hanswer)]

/-- Two leftovers are listed, one of them on a dataset with a blank in its name. -/
def leftoverEnv : Env :=
  { sampleEnv (.ok ⟨0, [31], ""⟩) with
    run := fun _ cmd => .ok ⟨0, if cmd.text = listCmd
      then unlines ["rpool@pull_backup_1", "rpool/my vm@pull_backup_1"] else "", ""⟩ }

theorem backupZfs_ownDestroyed_sample :
    let full := "rpool@pull_backup_2026-03-23_04-30-00"
    ∃ before c rest, ((backupZfs sampleServer sampleBase sampleSsh 1 false).run leftoverEnv.handler
        ⟨∅, []⟩).2.log = (before ++ c :: rest).reverse ∧
      c.op = .run (runInvocation sampleServer ("zfs snapshot -r " ++ full) sampleSsh) ∧
      OwnDestroyed (runInvocation sampleServer ("zfs snapshot -r " ++ full) sampleSsh)
        (runInvocation sampleServer ("zfs destroy -r " ++ full) sampleSsh)
        (pipeInvocation sampleServer (sendCmd sampleServer "2026-03-23_04-30-00") sampleSsh)
        (snapshotPath sampleServer sampleBase "2026-03-23_04-30-00") c rest := by
  have hlist : ListsStale leftoverEnv sampleServer sampleSsh := by
    intro n p hp _
    have hstdout : p.stdout = unlines ["rpool@pull_backup_1", "rpool/my vm@pull_backup_1"] := by
      cases hp
      rw [text_runInvocation]
      rfl
    exact ⟨_, hstdout, by decide +kernel⟩
  obtain ⟨before, c, rest, hlog, hop, -, hown, -⟩ := backupZfs_ownDestroyed
    (by decide : IsDatasetName sampleServer.zfsPool) hlist sampleBase 1 ⟨∅, []⟩
  have hstamp : buildTimestamp (leftoverEnv.clock 0) = "2026-03-23_04-30-00" := by decide
  have hfull : fullSnapshot sampleServer "2026-03-23_04-30-00" =
      "rpool@pull_backup_2026-03-23_04-30-00" := by decide
  simp only [List.length_nil, hstamp, hfull, List.append_nil] at hlog hop hown
  exact ⟨before, c, rest, hlog, hop, hown⟩

end SrvBackup.Specification
