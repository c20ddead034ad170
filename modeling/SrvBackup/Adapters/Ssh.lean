import SrvBackup.Adapters.System

/-!
# Running commands, here and over ssh

The remote and the local variant of a function differ in the invocation and in the words of
their errors. `runCommand` and `pipeToFile` are the common bodies; the functions of the
source are these bodies at their own words.
-/
namespace SrvBackup.Adapters

open SrvBackup.Domain SrvBackup.Effects SrvBackup.Storage SrvBackup.Text

/-- The ssh arguments that every adapter hands on. -/
structure Ssh where
  key : String
  user : String := "root"
  timeout : Int := 15
  deriving DecidableEq, Repr

def sshBaseOpts : List String := ["-o", "StrictHostKeyChecking=accept-new", "-o", "BatchMode=yes"]

def sshStreamOpts : List String := ["-o", "ServerAliveInterval=60", "-o", "ServerAliveCountMax=3"]

def buildSshCmd (host command : String) (ssh : Ssh) (extraOpts : List String) : List String :=
  ["ssh", "-i", ssh.key, "-o", "ConnectTimeout=" ++ toString ssh.timeout] ++ sshBaseOpts ++
    extraOpts ++ [ssh.user ++ "@" ++ host, command]

/-- The destination and the command are the last arguments of an ssh call. -/
theorem exists_buildSshCmd_eq (host command : String) (ssh : Ssh) (extraOpts : List String) :
    ∃ options, buildSshCmd host command ssh extraOpts =
      options ++ [ssh.user ++ "@" ++ host] ++ [command] :=
  ⟨["ssh", "-i", ssh.key, "-o", "ConnectTimeout=" ++ toString ssh.timeout] ++ sshBaseOpts ++
    extraOpts, by rw [List.append_assoc]; rfl⟩

namespace Invocation

/-- The text that a shell runs. -/
def text : Invocation → String
  | .shell command => command
  | .argv args => args.getLastD ""

/-- Where ssh takes a command; `none` is this machine. -/
def destination? : Invocation → Option String
  | .shell _ => none
  | .argv args => args.dropLast.getLast?

end Invocation

/-- The error of a command that ended with a non-zero exit status. -/
def exitError (who : String) (code : Int) (stderr : String) : Error :=
  .sshConnection (who ++ " exited with code " ++ toString code ++ ": " ++ strip stderr)

/-- Run a command and keep its output; any failure is an `SSHConnectionError`. -/
def runCommand (cmd : Invocation) (failed exited : String) : Prog CompletedProcess := do
  let result ← exceptOSError (subprocessRun cmd) fun e =>
    .raise (.sshConnection (failed ++ ": " ++ e.text))
  if result.returncode ≠ 0 then .raise (exitError exited result.returncode result.stderr)
  else pure result

def sshRun (host command : String) (ssh : Ssh) : Prog CompletedProcess :=
  runCommand (.argv (buildSshCmd host command ssh []))
    ("SSH to " ++ host ++ " failed") ("SSH command on " ++ host)

def localRun (command : String) : Prog CompletedProcess :=
  runCommand (.shell command) "Local command failed" "Local command"

/-- `path.unlink(missing_ok=True)`. -/
def unlinkMissingOk (path : Path) : Prog Unit :=
  exceptOSError (unlink path) fun e => if e.notFound then pure () else .raise (.os e)

/-- Stream the stdout of a command to a file. The file is created before the command starts,
and only a non-zero exit status removes it again. -/
def pipeToFile (cmd : Invocation) (failed exited : String) (localPath : Path) : Prog Unit := do
  mkdir localPath.parent
  openWrite localPath
  let proc ← exceptOSError (popen cmd localPath) fun e =>
    .raise (.sshConnection (failed ++ ": " ++ e.text))
  if proc.returncode ≠ 0 then do
    unlinkMissingOk localPath
    .raise (exitError exited proc.returncode proc.stderr)
  else pure ()

def sshPipeToFile (host command : String) (localPath : Path) (ssh : Ssh) : Prog Unit :=
  pipeToFile (.argv (buildSshCmd host command ssh sshStreamOpts))
    ("SSH pipe to " ++ host ++ " failed") ("SSH pipe from " ++ host) localPath

def localPipeToFile (command : String) (localPath : Path) : Prog Unit :=
  pipeToFile (.shell command) "Local pipe failed" "Local pipe" localPath

/-- Run a command on `server`, which may be this machine. -/
def runOn (server : ServerConfig) (command : String) (ssh : Ssh) : Prog CompletedProcess :=
  if server.isLocal then localRun command else sshRun server.hostname command ssh

/-- Stream the output of a command on `server` to a file. -/
def pipeFrom (server : ServerConfig) (command : String) (localPath : Path) (ssh : Ssh) :
    Prog Unit :=
  if server.isLocal then localPipeToFile command localPath
  else sshPipeToFile server.hostname command localPath ssh

/-! ## The one shape of both variants -/

/-- What `Popen` gets when the output of a command on `server` is streamed. -/
def pipeInvocation (server : ServerConfig) (command : String) (ssh : Ssh) : Invocation :=
  if server.isLocal then .shell command
  else .argv (buildSshCmd server.hostname command ssh sshStreamOpts)

/-- The two ways to stream from a server are one program. -/
theorem exists_pipeToFile_eq (server : ServerConfig) (command : String) (path : Path) (ssh : Ssh) :
    ∃ failed exited, pipeFrom server command path ssh =
      pipeToFile (pipeInvocation server command ssh) failed exited path := by
  unfold pipeFrom pipeInvocation
  split <;> exact ⟨_, _, rfl⟩

/-- What `subprocess.run` gets for a command on `server`. -/
def runInvocation (server : ServerConfig) (command : String) (ssh : Ssh) : Invocation :=
  if server.isLocal then .shell command else .argv (buildSshCmd server.hostname command ssh [])

@[simp] theorem text_runInvocation (server : ServerConfig) (command : String) (ssh : Ssh) :
    (runInvocation server command ssh).text = command := by
  unfold runInvocation
  split
  · rfl
  · obtain ⟨options, hcmd⟩ := exists_buildSshCmd_eq server.hostname command ssh []
    rw [hcmd, Invocation.text, List.getLastD_concat]

theorem exists_runCommand_eq (server : ServerConfig) (command : String) (ssh : Ssh) :
    ∃ failed exited, runOn server command ssh =
      runCommand (runInvocation server command ssh) failed exited := by
  unfold runOn runInvocation
  split <;> exact ⟨_, _, rfl⟩

theorem runOn_performs {P : Op → Prop} {server : ServerConfig} {command : String} {ssh : Ssh}
    (h : P (.run (runInvocation server command ssh))) :
    (runOn server command ssh).Performs (E := Sys) P := by
  obtain ⟨failed, exited, hrun⟩ := exists_runCommand_eq server command ssh
  rw [hrun]
  refine Program.Performs.bind (performs_exceptOSError ⟨h, performs_raiseOS⟩ fun _ => trivial) ?_
  intro result
  split <;> trivial

theorem pipeToFile_performs {P : Op → Prop} {cmd : Invocation} (failed exited : String)
    {path : Path} (hmkdir : P (.mkdir path.parent)) (hopen : P (.openWrite path))
    (hpopen : P (.popen cmd path)) (hunlink : P (.unlink path)) :
    (pipeToFile cmd failed exited path).Performs (E := Sys) P := by
  refine Program.Performs.bind ⟨hmkdir, performs_raiseOS⟩ fun _ => ?_
  refine Program.Performs.bind ⟨hopen, performs_raiseOS⟩ fun _ => ?_
  refine Program.Performs.bind (performs_exceptOSError ⟨hpopen, performs_raiseOS⟩
    fun _ => trivial) fun proc => ?_
  split
  · refine Program.Performs.bind (performs_exceptOSError ⟨hunlink, performs_raiseOS⟩ fun e => ?_)
      fun _ => trivial
    split <;> trivial
  · trivial

theorem pipeFrom_performs {P : Op → Prop} (server : ServerConfig) (command : String) {path : Path}
    (ssh : Ssh) (hP : FileFootprint P path) :
    (pipeFrom server command path ssh).Performs (E := Sys) P := by
  obtain ⟨failed, exited, hpipe⟩ := exists_pipeToFile_eq server command path ssh
  rw [hpipe]
  exact pipeToFile_performs failed exited hP.mkdir hP.openWrite (hP.popen _) hP.unlink

/-- A command that fails, for whatever reason, is an `SSHConnectionError`. -/
theorem runCommand_error {cmd : Invocation} {failed exited : String} {env : Env} {w u : World}
    {e : Error} (h : (runCommand cmd failed exited).run env.handler w = (.error e, u)) :
    ∃ text, e = .sshConnection text := by
  simp only [runCommand, Program.bind_eq, Program.run_bind, run_exceptOSError,
    run_subprocessRun] at h
  cases hr : env.run w.log.length cmd with
  | error e' =>
    simp only [hr, Except.mapError, Program.run_raise, Prod.mk.injEq, Except.error.injEq] at h
    exact ⟨_, h.1.symm⟩
  | ok result =>
    simp only [hr, Except.mapError] at h
    split at h
    · simp only [Program.run_raise, Prod.mk.injEq, Except.error.injEq] at h
      exact ⟨_, h.1.symm⟩
    · simp at h

/-- A command returns exactly when its exit status is zero. -/
theorem runOn_run {env : Env} {server : ServerConfig} {command : String} {ssh : Ssh} {w : World}
    {p : CompletedProcess} (hp : env.run w.log.length (runInvocation server command ssh) = .ok p) :
    ∃ u, u.files = w.files ∧
      (p.returncode = 0 ∧ (runOn server command ssh).run env.handler w = (.ok p, u) ∨
        p.returncode ≠ 0 ∧ ∃ e, (runOn server command ssh).run env.handler w = (.error e, u)) := by
  obtain ⟨failed, exited, hrun⟩ := exists_runCommand_eq server command ssh
  rw [hrun]
  refine ⟨World.record w _ (env.act w.log.length
    (.run (runInvocation server command ssh)) w.files), rfl, ?_⟩
  simp only [runCommand, Program.bind_eq, Program.run_bind, run_exceptOSError, run_subprocessRun,
    hp, Except.mapError]
  by_cases hcode : p.returncode = 0
  · exact .inl ⟨hcode, by simp [hcode]⟩
  · exact .inr ⟨hcode, _, by simp [hcode]; rfl⟩

theorem runOn_error {server : ServerConfig} {command : String} {ssh : Ssh} {env : Env}
    {w u : World} {e : Error} (h : (runOn server command ssh).run env.handler w = (.error e, u)) :
    ∃ text, e = .sshConnection text := by
  unfold runOn at h
  split at h <;> exact runCommand_error h

/-! ## How a run goes -/

/-- What a command that has ended with an answer gives. -/
theorem run_runCommand {σ : Type} {h : Handler Sys σ} {cmd : Invocation} (failed exited : String)
    {s t : σ} {result : CompletedProcess} (hstep : h (.run cmd) s = (.ok result, t)) :
    (runCommand cmd failed exited).run h s =
      (if result.returncode = 0 then .ok result
        else .error (exitError exited result.returncode result.stderr), t) := by
  have hrun : (subprocessRun cmd).run h s = (.ok result, t) := by
    have hop : (subprocessRun cmd).run h s =
        (raiseOS (h (.run cmd) s).1).run h (h (.run cmd) s).2 := rfl
    rw [hop, hstep]
    rfl
  rw [runCommand, Program.bind_eq, Program.run_bind, run_exceptOSError, hrun]
  dsimp only
  split <;> simp_all

/-- Both trees hold the same files with the same contents. -/
def SameFiles (t u : Files) : Prop := ∀ q, u.content? q = t.content? q

/-- `u` holds the files of `t`, except that the file at `p` is `c`. -/
def FileAt (t : Files) (p : List Component) (c : Option Content) (u : Files) : Prop :=
  ∀ q, u.content? q = if q = p then c else t.content? q

/-- Why a file cannot be opened for writing: the system refuses, or the tree does. -/
def Refusal (env : Env) (path : Path) (t : Files) : Prop :=
  env.fault (.mkdir path.parent) ≠ none ∨ env.fault (.openWrite path) ≠ none ∨
    t.mkdirs (path.parent.locate env.cwd) = none ∨
    ∃ u, t.mkdirs (path.parent.locate env.cwd) = some u ∧ u.create (path.locate env.cwd) [] = none

/-- What a run of `pipeToFile` from `w` can end in: the destination could not be opened, the
command could not be started, it ended with a non-zero status (and the file could be removed or
not), or it ended with status zero. -/
inductive PipeEnd (env : Env) (cmd : Invocation) (failed exited : String) (path : Path)
    (w : World) : Except Error Unit × World → Prop where
  | refused (e : OSError) (u : World) : Refusal env path w.files → SameFiles w.files u.files →
      (u.Performed (.popen cmd path) → w.Performed (.popen cmd path)) →
      PipeEnd env cmd failed exited path w (.error (.os e), u)
  | notStarted (e : OSError) (u : World) : env.pipe cmd = .error e →
      FileAt w.files (path.locate env.cwd) (some []) u.files →
      PipeEnd env cmd failed exited path w (.error (.sshConnection (failed ++ ": " ++ e.text)), u)
  | removed (p : PipedProcess) (u : World) : env.pipe cmd = .ok p → p.returncode ≠ 0 →
      env.fault (.unlink path) = none → FileAt w.files (path.locate env.cwd) none u.files →
      PipeEnd env cmd failed exited path w (.error (exitError exited p.returncode p.stderr), u)
  | stuck (p : PipedProcess) (e : OSError) (r : Error) (u : World) : env.pipe cmd = .ok p →
      p.returncode ≠ 0 → env.fault (.unlink path) = some e →
      FileAt w.files (path.locate env.cwd) (some p.stdout) u.files →
      PipeEnd env cmd failed exited path w (.error r, u)
  | written (p : PipedProcess) (u : World) : env.pipe cmd = .ok p → p.returncode = 0 →
      u.files.isDir (path.locate env.cwd).dropLast →
      FileAt w.files (path.locate env.cwd) (some p.stdout) u.files →
      PipeEnd env cmd failed exited path w (.ok (), u)

theorem unlinked_of_content {t : Files} {p : List Component} {c : Content}
    (hc : t.content? p = some c) : Env.unlinked t p = some (t.remove p) := by
  simp [Env.unlinked, FileTree.content?_eq_some.mp hc]

/-- Removing a file that is there works unless the environment refuses it. -/
theorem unlinkMissingOk_run (env : Env) (path : Path) (w : World) {c : Content}
    (hc : w.files.content? (path.locate env.cwd) = some c) :
    (env.fault (.unlink path) = none ∧
      ∃ u, (unlinkMissingOk path).run env.handler w = (.ok (), u) ∧
        FileAt w.files (path.locate env.cwd) none u.files) ∨
    ∃ e r u, env.fault (.unlink path) = some e ∧
      (unlinkMissingOk path).run env.handler w = (r, u) ∧ SameFiles w.files u.files := by
  rw [unlinkMissingOk, run_exceptOSError, run_unlink]
  simp only [Env.act, World.record, unlinked_of_content hc]
  cases hf : env.fault (.unlink path) with
  | none => exact .inl ⟨rfl, _, rfl, fun q => FileTree.content?_remove _ _ _⟩
  | some e =>
    refine .inr ⟨e, _, _, rfl, rfl, fun q => ?_⟩
    simp only [Env.update]
    split <;> rfl

/-- The unlinking part of a run depends on the files only. -/
theorem unlinkMissingOk_congr (env : Env) (path : Path) {w w' : World} (h : w.files = w'.files) :
    ((unlinkMissingOk path).run env.handler w).2.files =
      ((unlinkMissingOk path).run env.handler w').2.files := by
  simp only [unlinkMissingOk, run_exceptOSError, run_unlink, Env.act, World.record, h]
  rcases (Env.update (env.fault (.unlink path)) _ _ w'.files) with ⟨e | _, t⟩
  · simp only [Except.mapError]
    split <;> rfl
  · rfl

/-- Two commands that write the same and end the same leave the same files. -/
theorem pipeToFile_agree {env : Env} {cmd cmd' : Invocation} (h : env.pipe cmd = env.pipe cmd')
    (failed exited failed' exited' : String) (path : Path) (w : World) :
    ((pipeToFile cmd failed exited path).run env.handler w).2.files =
        ((pipeToFile cmd' failed' exited' path).run env.handler w).2.files ∧
      ((pipeToFile cmd failed exited path).run env.handler w).1.isOk =
        ((pipeToFile cmd' failed' exited' path).run env.handler w).1.isOk := by
  simp only [pipeToFile, Program.bind_eq, Program.run_bind]
  rcases (mkdir path.parent).run env.handler w with ⟨e | _, u⟩
  · exact ⟨rfl, rfl⟩
  simp only
  rcases (openWrite path).run env.handler u with ⟨e | _, v⟩
  · exact ⟨rfl, rfl⟩
  simp only [run_exceptOSError, run_popen, Env.act, World.record, h]
  cases env.pipe cmd' with
  | error e => exact ⟨rfl, rfl⟩
  | ok p =>
    simp only [Except.mapError]
    split
    · simp only [Program.run_bind]
      generalize hx : World.mk _ (⟨.popen cmd path, _⟩ :: v.log) = x
      generalize hx' : World.mk _ (⟨.popen cmd' path, _⟩ :: v.log) = x'
      have hfiles : x.files = x'.files := by rw [← hx, ← hx']
      have hsame := unlinkMissingOk_congr env path hfiles
      rcases hr : (unlinkMissingOk path).run env.handler x with ⟨e | _, y⟩ <;>
        rcases hr' : (unlinkMissingOk path).run env.handler x' with ⟨e' | _, y'⟩ <;>
        simp_all [Except.isOk, Except.toBool]
    · exact ⟨rfl, rfl⟩

theorem pipeToFile_end (env : Env) (cmd : Invocation) (failed exited : String) (path : Path)
    (w : World) :
    PipeEnd env cmd failed exited path w
      ((pipeToFile cmd failed exited path).run env.handler w) := by
  simp only [pipeToFile, Program.bind_eq, Program.run_bind, run_mkdir, Env.act]
  rcases Env.update_cases (env.fault (.mkdir path.parent)) ⟨"File exists", false⟩
    (w.files.mkdirs (path.parent.locate env.cwd)) w.files with ⟨e, hwhy, he⟩ | ⟨t, -, ht, hok⟩
  · rw [he]
    have hrefusal : Refusal env path w.files := hwhy.imp_right fun h => .inr (.inl h)
    exact .refused e _ hrefusal (fun q => rfl) (by simp [World.Performed, World.record])
  simp only [hok, Except.mapError, run_openWrite, Env.act, World.record]
  have hdirs := FileTree.content?_mkdirs ht
  rcases Env.update_cases (env.fault (.openWrite path)) ⟨"cannot open", false⟩
    (t.create (path.locate env.cwd) []) t with ⟨e, hwhy, he⟩ | ⟨u, -, hu, hok⟩
  · rw [he]
    have hrefusal : Refusal env path w.files :=
      .inr (hwhy.imp_right fun h => .inr ⟨t, ht, h⟩)
    exact .refused e _ hrefusal hdirs (by simp [World.Performed])
  simp only [hok, run_exceptOSError, run_popen, Env.act, World.record]
  obtain ⟨hparent, rfl⟩ := FileTree.create_eq_some hu
  cases hp : env.pipe cmd with
  | error e =>
    refine .notStarted e _ hp fun q => ?_
    simp [FileTree.content?_set, hdirs]
  | ok p =>
    simp only [Except.mapError]
    have hfile : FileAt w.files (path.locate env.cwd) (some p.stdout)
        ((t.set (path.locate env.cwd) (.file [])).set (path.locate env.cwd) (.file p.stdout)) := by
      intro q
      by_cases hq : q = path.locate env.cwd <;> simp [FileTree.content?_set, hq, hdirs]
    by_cases hcode : p.returncode = 0
    · simp only [hcode, ne_eq, not_true, if_false]
      refine .written p _ hp hcode ?_ hfile
      exact FileTree.isDir_set_parent (FileTree.isDir_set_parent hparent)
    · simp only [hcode, ne_eq, not_false_eq_true, if_true, Program.run_bind]
      generalize hv : World.mk _ _ = v
      have hv' : FileAt w.files (path.locate env.cwd) (some p.stdout) v.files := hv ▸ hfile
      have hc : v.files.content? (path.locate env.cwd) = some p.stdout := by simp [hv' _]
      rcases unlinkMissingOk_run env path v hc with ⟨hf, u, hu, hgone⟩ | ⟨e, r, u, hf, hu, hsame⟩
      · rw [hu]
        refine .removed p u hp hcode hf fun q => ?_
        rw [hgone q, hv' q]
        split <;> rfl
      · rw [hu]
        have hkept : FileAt w.files (path.locate env.cwd) (some p.stdout) u.files :=
          fun q => (hsame q).trans (hv' q)
        cases r with
        | ok _ => exact .stuck p e _ u hp hcode hf hkept
        | error _ => exact .stuck p e _ u hp hcode hf hkept

end SrvBackup.Adapters
