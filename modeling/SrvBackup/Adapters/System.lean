import SrvBackup.Domain.Behaviors
import SrvBackup.Effects.Program
import SrvBackup.Storage.FileTree
import SrvBackup.Storage.Path
import SrvBackup.Text.Glob
import SrvBackup.Text.Lines

/-!
# The operating system as an effect signature

Every adapter is a program over `Sys`. An operation that can fail with `OSError` answers with
it, and the program decides what to raise.

`Env` fixes what one run meets: the clock, what each command does, and which local file
operations fail although the tree would allow them. `Env.handler` runs the operations on a
`World`, the local files together with the events so far (newest first). A command is answered
by its position in the run, so the same command text may end differently each time.
-/
namespace SrvBackup.Adapters

open SrvBackup.Domain SrvBackup.Effects SrvBackup.Storage

/-- File content. -/
abbrev Content := List UInt8

abbrev Files := FileTree Component Content

/-- What `subprocess` is given: an argument vector, or a text for the shell. -/
inductive Invocation where
  | argv (args : List String)
  | shell (command : String)
  deriving DecidableEq, Repr

structure CompletedProcess where
  returncode : Int
  stdout : String
  stderr : String
  deriving DecidableEq, Repr

/-- The end of a command whose stdout is a file; `stderr` is already decoded. -/
structure PipedProcess where
  returncode : Int
  stdout : Content
  stderr : String
  deriving DecidableEq, Repr

inductive Op where
  | now
  | monotonic
  /-- `subprocess.run(cmd, capture_output=True, text=True)` -/
  | run (cmd : Invocation)
  /-- `subprocess.Popen(cmd, stdout=fh)` and `communicate()`, with `fh` open on `path` -/
  | popen (cmd : Invocation) (path : Path)
  /-- `path.mkdir(parents=True, exist_ok=True)` -/
  | mkdir (path : Path)
  /-- `path.open("wb")` -/
  | openWrite (path : Path)
  | stat (path : Path)
  | unlink (path : Path)
  /-- `path.write_text(text, encoding="utf-8")` -/
  | writeText (path : Path) (text : String)
  | isDir (path : Path)
  | isFile (path : Path)
  /-- the names in `path` that match `pattern`, a pattern of one part without `**` -/
  | glob (path : Path) (pattern : String)
  deriving DecidableEq

@[reducible] def Answer : Op → Type
  | .now => DateTime
  | .monotonic => ℚ
  | .run _ => Except OSError CompletedProcess
  | .popen _ _ => Except OSError PipedProcess
  | .mkdir _ | .openWrite _ | .unlink _ | .writeText _ _ => Except OSError Unit
  | .stat _ => Except OSError Nat
  | .isDir _ | .isFile _ => Bool
  | .glob _ _ => List Component

def Sys : Signature := ⟨Op, Answer⟩

instance : DecidableEq Sys.Op := inferInstanceAs (DecidableEq Op)

abbrev Prog := Program Sys Error

/-- An answer as the program sees it: a value, or an `OSError` that is raised. -/
def raiseOS {α : Type} : Except OSError α → Prog α
  | .ok a => .ret a
  | .error e => .raise (.os e)

def now : Prog DateTime := .op (E := Sys) .now .ret
def monotonic : Prog ℚ := .op (E := Sys) .monotonic .ret
def subprocessRun (cmd : Invocation) : Prog CompletedProcess := .op (E := Sys) (.run cmd) raiseOS
def popen (cmd : Invocation) (path : Path) : Prog PipedProcess :=
  .op (E := Sys) (.popen cmd path) raiseOS
def mkdir (path : Path) : Prog Unit := .op (E := Sys) (.mkdir path) raiseOS
def openWrite (path : Path) : Prog Unit := .op (E := Sys) (.openWrite path) raiseOS
def stat (path : Path) : Prog Nat := .op (E := Sys) (.stat path) raiseOS
def unlink (path : Path) : Prog Unit := .op (E := Sys) (.unlink path) raiseOS
def writeText (path : Path) (text : String) : Prog Unit :=
  .op (E := Sys) (.writeText path text) raiseOS
def isDir (path : Path) : Prog Bool := .op (E := Sys) (.isDir path) .ret
def isFile (path : Path) : Prog Bool := .op (E := Sys) (.isFile path) .ret
def glob (path : Path) (pattern : String) : Prog (List Component) :=
  .op (E := Sys) (.glob path pattern) .ret

/-- `try p except OSError as e: f e`. -/
def exceptOSError {α : Type} (p : Prog α) (f : OSError → Prog α) : Prog α :=
  p.handle fun
    | .os e => f e
    | e => .raise e

structure Env where
  /-- the working directory -/
  cwd : List Component
  /-- the reading of the clock after `n` operations -/
  clock : Nat → DateTime
  monotonic : Nat → ℚ
  /-- how a command ends that is run after `n` operations -/
  run : Nat → Invocation → Except OSError CompletedProcess
  /-- how a command ends whose stdout is a file, and what it wrote -/
  pipe : Invocation → Except OSError PipedProcess
  /-- local file operations that fail for a reason outside the tree -/
  fault : Op → Option OSError

/-- An operation with its answer. -/
structure Event where
  op : Op
  answer : Answer op

structure World where
  files : Files
  log : List Event := []

/-- Encoded text. -/
def encodeUtf8 (text : String) : Content := text.toByteArray.toList

/-- The operation `o` was performed. -/
def World.Performed (w : World) (o : Op) : Prop := ∃ ev ∈ w.log, ev.op = o

instance (w : World) (o : Op) : Decidable (w.Performed o) := by
  unfold World.Performed; infer_instance

/-- The files with the event of `o` on top of the log. -/
def World.record (w : World) (o : Op) (r : Answer o × Files) : World :=
  ⟨r.2, ⟨o, r.1⟩ :: w.log⟩

namespace Env

/-- An update that the environment or the tree itself can refuse. -/
def update {τ : Type} (fault : Option OSError) (refusal : OSError) (new : Option τ) (old : τ) :
    Except OSError Unit × τ :=
  match fault, new with
  | some e, _ => (.error e, old)
  | none, some t => (.ok (), t)
  | none, none => (.error refusal, old)

/-- Removing a regular file. -/
def unlinked (t : Files) (p : List Component) : Option Files :=
  match t.get? p with
  | some (.file _) => some (t.remove p)
  | _ => none

/-- The answer to an operation performed after `n` others, and the files afterwards. -/
def act (env : Env) (n : Nat) : (o : Op) → Files → Answer o × Files
  | .now, t => (env.clock n, t)
  | .monotonic, t => (env.monotonic n, t)
  | .run cmd, t => (env.run n cmd, t)
  | .popen cmd path, t =>
    match env.pipe cmd with
    | .ok p => (.ok p, t.set (path.locate env.cwd) (.file p.stdout))
    | .error e => (.error e, t)
  | .mkdir path, t =>
    update (env.fault (.mkdir path)) ⟨"File exists", false⟩ (t.mkdirs (path.locate env.cwd)) t
  | .openWrite path, t =>
    update (env.fault (.openWrite path)) ⟨"cannot open", false⟩
      (t.create (path.locate env.cwd) []) t
  | .stat path, t =>
    match env.fault (.stat path), t.get? (path.locate env.cwd) with
    | some e, _ => (.error e, t)
    | none, some (.file c) => (.ok c.length, t)
    | none, some .dir => (.ok 0, t)
    | none, none => (.error ⟨"No such file or directory", true⟩, t)
  | .unlink path, t =>
    update (env.fault (.unlink path))
      ⟨"cannot unlink", (t.get? (path.locate env.cwd)).isNone⟩
      (unlinked t (path.locate env.cwd)) t
  | .writeText path text, t =>
    update (env.fault (.writeText path text)) ⟨"cannot open", false⟩
      (t.create (path.locate env.cwd) (encodeUtf8 text)) t
  | .isDir path, t => (t.isDir (path.locate env.cwd), t)
  | .isFile path, t => ((t.content? (path.locate env.cwd)).isSome, t)
  | .glob path pattern, t =>
    ((t.children (path.locate env.cwd)).filter fun x =>
      x.val ≠ ".." && Text.Glob.fnmatch x.val pattern, t)

/-- Acting and recording the event. -/
def handler (env : Env) : Handler Sys World := fun o w =>
  let r := env.act w.log.length o w.files
  (r.1, w.record o r)

/-- A run of a program by itself, from the given files. -/
def exec {α : Type} (env : Env) (p : Prog α) (files : Files) : Except Error α × World :=
  p.run env.handler ⟨files, []⟩

theorem update_cases {τ : Type} (fault : Option OSError) (refusal : OSError) (new : Option τ)
    (old : τ) :
    (∃ e, (fault ≠ none ∨ new = none) ∧ update fault refusal new old = (.error e, old)) ∨
      ∃ t, fault = none ∧ new = some t ∧ update fault refusal new old = (.ok (), t) := by
  cases fault with
  | some e => exact .inl ⟨e, .inl (by simp), rfl⟩
  | none =>
    cases new with
    | some t => exact .inr ⟨t, rfl, rfl, rfl⟩
    | none => exact .inl ⟨refusal, .inr rfl, rfl⟩

/-- Looking at a file changes nothing. -/
@[simp] theorem act_stat_files (env : Env) (n : Nat) (path : Path) (t : Files) :
    (env.act n (.stat path) t).2 = t := by
  simp only [act]
  split <;> rfl

end Env

/-! ## One operation -/

theorem run_raiseOS {α σ : Type} (h : Handler Sys σ) (x : Except OSError α) (s : σ) :
    (raiseOS x).run h s = (x.mapError .os, s) := by
  cases x <;> rfl

section Run

variable (env : Env) (w : World)

@[simp] theorem run_now : now.run env.handler w =
    (.ok (env.clock w.log.length), w.record .now (env.act w.log.length .now w.files)) := rfl

@[simp] theorem run_monotonic : monotonic.run env.handler w =
    (.ok (env.monotonic w.log.length),
      w.record .monotonic (env.act w.log.length .monotonic w.files)) := rfl

@[simp] theorem run_subprocessRun (cmd : Invocation) : (subprocessRun cmd).run env.handler w =
    ((env.run w.log.length cmd).mapError .os,
      w.record (.run cmd) (env.act w.log.length (.run cmd) w.files)) := run_raiseOS _ _ _

@[simp] theorem run_popen (cmd : Invocation) (path : Path) : (popen cmd path).run env.handler w =
    ((env.act w.log.length (.popen cmd path) w.files).1.mapError .os,
      w.record (.popen cmd path) (env.act w.log.length (.popen cmd path) w.files)) :=
  run_raiseOS _ _ _

@[simp] theorem run_mkdir (path : Path) : (mkdir path).run env.handler w =
    ((env.act w.log.length (.mkdir path) w.files).1.mapError .os,
      w.record (.mkdir path) (env.act w.log.length (.mkdir path) w.files)) := run_raiseOS _ _ _

@[simp] theorem run_openWrite (path : Path) : (openWrite path).run env.handler w =
    ((env.act w.log.length (.openWrite path) w.files).1.mapError .os,
      w.record (.openWrite path) (env.act w.log.length (.openWrite path) w.files)) :=
  run_raiseOS _ _ _

@[simp] theorem run_stat (path : Path) : (stat path).run env.handler w =
    ((env.act w.log.length (.stat path) w.files).1.mapError .os,
      w.record (.stat path) (env.act w.log.length (.stat path) w.files)) := run_raiseOS _ _ _

@[simp] theorem run_unlink (path : Path) : (unlink path).run env.handler w =
    ((env.act w.log.length (.unlink path) w.files).1.mapError .os,
      w.record (.unlink path) (env.act w.log.length (.unlink path) w.files)) := run_raiseOS _ _ _

@[simp] theorem run_writeText (path : Path) (text : String) :
    (writeText path text).run env.handler w =
      ((env.act w.log.length (.writeText path text) w.files).1.mapError .os,
        w.record (.writeText path text) (env.act w.log.length (.writeText path text) w.files)) :=
  run_raiseOS _ _ _

@[simp] theorem run_isDir (path : Path) : (isDir path).run env.handler w =
    (.ok (w.files.isDir (path.locate env.cwd)),
      w.record (.isDir path) (env.act w.log.length (.isDir path) w.files)) := rfl

@[simp] theorem run_isFile (path : Path) : (isFile path).run env.handler w =
    (.ok (w.files.content? (path.locate env.cwd)).isSome,
      w.record (.isFile path) (env.act w.log.length (.isFile path) w.files)) := rfl

@[simp] theorem run_glob (path : Path) (pattern : String) : (glob path pattern).run env.handler w =
    (.ok (env.act w.log.length (.glob path pattern) w.files).1,
      w.record (.glob path pattern) (env.act w.log.length (.glob path pattern) w.files)) := rfl

end Run

theorem run_exceptOSError {α : Type} {σ : Type} (h : Handler Sys σ) (p : Prog α)
    (f : OSError → Prog α) (s : σ) :
    (exceptOSError p f).run h s =
      match p.run h s with
      | (.error (.os e), t) => (f e).run h t
      | r => r := by
  rw [exceptOSError, Program.run_handle]
  rcases p.run h s with ⟨e | a, t⟩
  · cases e <;> rfl
  · rfl

theorem mkdir_run {env : Env} {path : Path} {w : World} {t : Files}
    (hfault : env.fault (.mkdir path) = none)
    (ht : w.files.mkdirs (path.locate env.cwd) = some t) :
    ∃ u, (mkdir path).run env.handler w = (.ok (), u) ∧ u.files = t := by
  simp only [run_mkdir, Env.act, hfault, ht, Env.update]
  exact ⟨_, rfl, rfl⟩

theorem writeText_run {env : Env} (path : Path) (text : String) {w : World} {t : Files}
    (hfault : env.fault (.writeText path text) = none)
    (ht : w.files.create (path.locate env.cwd) (encodeUtf8 text) = some t) :
    ∃ u, (writeText path text).run env.handler w = (.ok (), u) ∧ u.files = t := by
  simp only [run_writeText, Env.act, hfault, ht, Env.update]
  exact ⟨_, rfl, rfl⟩

/-- Looking at a file changes nothing; it fails when the system refuses it or nothing is
there. -/
theorem stat_end (env : Env) (path : Path) (w : World) :
    ∃ r u, ((stat path).bind fun _ => pure ()).run env.handler w = (r, u) ∧ u.files = w.files ∧
      (r = .ok () ∨ ∃ e, r = .error (.os e) ∧
        (env.fault (.stat path) ≠ none ∨ w.files.content? (path.locate env.cwd) = none)) := by
  simp only [Program.run_bind, run_stat]
  cases hr : (env.act w.log.length (.stat path) w.files).1 with
  | ok size => exact ⟨_, _, rfl, Env.act_stat_files _ _ _ _, .inl rfl⟩
  | error e =>
    refine ⟨_, _, rfl, Env.act_stat_files _ _ _ _, .inr ⟨e, rfl, ?_⟩⟩
    by_contra! hthere
    obtain ⟨c, hc⟩ := Option.ne_none_iff_exists'.mp hthere.2
    simp [Env.act, hthere.1, FileTree.content?_eq_some.mp hc] at hr

/-! ## Footprints -/

section Footprint

variable {P : Op → Prop}

theorem performs_raiseOS {α : Type} (x : Except OSError α) :
    (raiseOS x).Performs (E := Sys) P := by
  cases x <;> trivial

theorem performs_exceptOSError {α : Type} {p : Prog α} {f : OSError → Prog α}
    (hp : p.Performs (E := Sys) P) (hf : ∀ e, (f e).Performs (E := Sys) P) :
    (exceptOSError p f).Performs (E := Sys) P := by
  refine hp.handle ?_
  rintro (_ | _ | _ | e | _)
  case os => exact hf e
  all_goals trivial

end Footprint

/-- What a program may do with a file that it makes at `path`. -/
structure FileFootprint (P : Op → Prop) (path : Path) : Prop where
  mkdir : P (.mkdir path.parent)
  openWrite : P (.openWrite path)
  popen : ∀ cmd, P (.popen cmd path)
  unlink : P (.unlink path)
  stat : P (.stat path)
  writeText : ∀ text, P (.writeText path text)

/-- What a program may do with the directory `d` and its entries. -/
structure DirFootprint (P : Op → Prop) (d : Path) : Prop where
  mkdir : P (.mkdir d)
  isDir : P (.isDir d)
  glob : ∀ pattern, P (.glob d pattern)
  isFile : ∀ x, P (.isFile (d.child x))
  unlink : ∀ x, P (.unlink (d.child x))

theorem performs_stat {P : Op → Prop} {path : Path} (h : P (.stat path)) :
    (stat path).Performs (E := Sys) P := ⟨h, performs_raiseOS⟩

theorem performs_now {P : Op → Prop} (h : P .now) : now.Performs (E := Sys) P :=
  ⟨h, fun _ => trivial⟩

/-- Running commands without a file. -/
def RunsCommand (o : Op) : Prop := ∃ cmd, o = .run cmd

/-- A program that only runs commands touches no file and streams into none. -/
theorem run_of_runsCommand {α : Type} {p : Prog α} (hp : p.Performs (E := Sys) RunsCommand)
    (env : Env) (w : World) :
    (p.run env.handler w).2.files = w.files ∧
      ∀ cmd path, (p.run env.handler w).2.Performed (.popen cmd path) →
        w.Performed (.popen cmd path) := by
  refine hp.run_preserves (I := fun u : World => u.files = w.files ∧
    ∀ cmd path, u.Performed (.popen cmd path) → w.Performed (.popen cmd path)) ?_
    ⟨rfl, fun _ _ h => h⟩
  rintro _ u ⟨cmd, rfl⟩ ⟨hfiles, hlog⟩
  refine ⟨hfiles, fun c path h => hlog c path ?_⟩
  obtain ⟨ev, hev, hop⟩ := h
  rcases List.mem_cons.mp hev with rfl | hev
  · cases hop
  · exact ⟨ev, hev, hop⟩

/-! ## Events of a run -/

section Events

variable {α : Type} {P : Op → Prop} {env : Env} {w w' : World}

/-- A run puts the events of its operations on top of the log. -/
theorem log_run {p : Prog α} (hp : p.Performs (E := Sys) P) (env : Env) (w : World) :
    ∃ events, (p.run env.handler w).2.log = events ++ w.log ∧ ∀ ev ∈ events, P ev.op := by
  induction p generalizing w with
  | ret a => exact ⟨[], rfl, by simp⟩
  | raise e => exact ⟨[], rfl, by simp⟩
  | op o next ih =>
    obtain ⟨events, hlog, hevents⟩ := ih _ (hp.2 _) (env.handler o w).2
    refine ⟨events ++ [⟨o, (env.handler o w).1⟩], ?_, ?_⟩
    · rw [List.append_assoc]
      exact hlog
    · intro ev hev
      rcases List.mem_append.mp hev with hev | hev
      · exact hevents ev hev
      · rw [List.mem_singleton.mp hev]
        exact hp.1

/-- The environment with other answers to commands. -/
def Env.withRun (env : Env) (answer : Nat → Invocation → Except OSError CompletedProcess) : Env :=
  { env with run := answer }

variable {answer : Nat → Invocation → Except OSError CompletedProcess}

theorem act_withRun {o : Op} (ho : ¬ RunsCommand o) (n : Nat) (t : Files) :
    (env.withRun answer).act n o t = env.act n o t := by
  cases o with
  | run cmd => exact absurd ⟨cmd, rfl⟩ ho
  | _ => rfl

/-- A run does not depend on answers that come after it. -/
theorem run_withRun_until {m : Nat} (hanswer : ∀ n < m, answer n = env.run n) {p : Prog α}
    (hlength : (p.run env.handler w).2.log.length ≤ m) :
    p.run (env.withRun answer).handler w = p.run env.handler w := by
  induction p generalizing w with
  | ret a => rfl
  | raise e => rfl
  | op o next ih =>
    obtain ⟨events, hlog, -⟩ := log_run (Program.performs_true (next (env.handler o w).1)) env
      (env.handler o w).2
    have hbefore : w.log.length < m := by
      refine lt_of_lt_of_le ?_ hlength
      rw [Program.run_op, hlog, List.length_append]
      have hone : (env.handler o w).2.log.length = w.log.length + 1 := rfl
      omega
    have hact : (env.withRun answer).act w.log.length o w.files =
        env.act w.log.length o w.files := by
      cases o with
      | run cmd => exact congrArg (·, w.files) (congrFun (hanswer _ hbefore) cmd)
      | _ => rfl
    have hstep : (env.withRun answer).handler o w = env.handler o w := by
      unfold Env.handler
      rw [hact]
    rw [Program.run_op, Program.run_op, hstep]
    exact ih _ hlength

/-- A run without commands depends on the files and the length of the log only. -/
theorem run_withRun_of_quiet (env : Env)
    (answer : Nat → Invocation → Except OSError CompletedProcess) {p : Prog α}
    (hp : p.Performs (E := Sys) fun o => ¬ RunsCommand o)
    (hfiles : w'.files = w.files) (hlength : w'.log.length = w.log.length) :
    (p.run (env.withRun answer).handler w').1 = (p.run env.handler w).1 ∧
      (p.run (env.withRun answer).handler w').2.files = (p.run env.handler w).2.files ∧
      (p.run (env.withRun answer).handler w').2.log.length =
        (p.run env.handler w).2.log.length := by
  induction p generalizing w w' with
  | ret a => exact ⟨rfl, hfiles, hlength⟩
  | raise e => exact ⟨rfl, hfiles, hlength⟩
  | op o next ih =>
    have hact : (env.withRun answer).act w'.log.length o w'.files =
        env.act w.log.length o w.files := by
      rw [act_withRun hp.1, hfiles, hlength]
    have hanswer : ((env.withRun answer).handler o w').1 = (env.handler o w).1 := by
      change ((env.withRun answer).act w'.log.length o w'.files).1 = _
      rw [hact]
      rfl
    have hleft : ((env.withRun answer).handler o w').2.files = (env.handler o w).2.files := by
      change ((env.withRun answer).act w'.log.length o w'.files).2 = _
      rw [hact]
      rfl
    rw [Program.run_op, Program.run_op, hanswer]
    exact ih _ (hp.2 _) hleft (congrArg (· + 1) hlength)

end Events

end SrvBackup.Adapters
