import SrvBackup.Adapters.Ssh

/-!
# What setting up keys works on

The local key files, and the `authorized_keys` files behind the ssh destinations. `ssh-keygen -f F`
writes the private key to `F` and the public key to `F.pub`; `grep -qF` looks for a text in the
lines of a file, and `echo >>` appends a line to it. Destinations may share a file.

`KeyEnv` fixes what one run meets: the keys that `ssh-keygen` makes, how each call ends, and which
files refuse an append. What a path and a destination mean is the same for every run.
-/
namespace SrvBackup.Adapters

open SrvBackup.Domain SrvBackup.Effects SrvBackup.Storage

/-- The local tree, with the text of each file. -/
abbrev KeyFiles := FileTree Component String

inductive KeyOp where
  /-- `path.mkdir(parents=True, exist_ok=True)` -/
  | mkdir (path : Path)
  | pathExists (path : Path)
  | readText (path : Path)
  | chmod (path : Path) (mode : Nat)
  /-- `subprocess.run(cmd, capture_output=True, text=True, check=False)` -/
  | run (cmd : Invocation)
  deriving DecidableEq

@[reducible] def KeyAnswer : KeyOp → Type
  | .mkdir _ | .chmod _ _ => Except OSError Unit
  | .pathExists _ => Bool
  | .readText _ => Except OSError String
  | .run _ => Except OSError CompletedProcess

def KeySys : Signature := ⟨KeyOp, KeyAnswer⟩

abbrev KeyProg := Program KeySys Error

namespace Keys

def raiseOS {α : Type} : Except OSError α → KeyProg α
  | .ok a => .ret a
  | .error e => .raise (.os e)

def mkdir (path : Path) : KeyProg Unit := .op (E := KeySys) (.mkdir path) raiseOS
def pathExists (path : Path) : KeyProg Bool := .op (E := KeySys) (.pathExists path) .ret
def readText (path : Path) : KeyProg String := .op (E := KeySys) (.readText path) raiseOS
def chmod (path : Path) (mode : Nat) : KeyProg Unit := .op (E := KeySys) (.chmod path mode) raiseOS
def subprocessRun (cmd : Invocation) : KeyProg CompletedProcess :=
  .op (E := KeySys) (.run cmd) raiseOS

end Keys

/-! ## Commands on text files -/

/-- Some line of the text contains the key. -/
def HasKey (key content : String) : Prop :=
  ∃ line ∈ content.toList.splitOn '\n', key.toList <:+: line

instance (key content : String) : Decidable (HasKey key content) := by
  unfold HasKey; infer_instance

/-- The file `f` is there, and some line of it contains the key. -/
def HoldsKey {F : Type} (authorized : F → Option String) (f : F) (key : String) : Prop :=
  ∃ content ∈ authorized f, HasKey key content

instance {F : Type} (authorized : F → Option String) (f : F) (key : String) :
    Decidable (HoldsKey authorized f key) := by
  unfold HoldsKey; infer_instance

inductive RemoteCommand where
  | check (key file : String)
  | append (key file : String)
  deriving DecidableEq, Repr

/-- A text in single quotes, and what follows the closing quote. -/
def quoted (cs : List Char) : String × List Char :=
  (String.ofList (cs.takeWhile (· ≠ '\'')), (cs.dropWhile (· ≠ '\'')).tail)

/-- The command on a text file that a text is for the shell, if it is one. -/
def RemoteCommand.ofText? (text : String) : Option RemoteCommand :=
  match text.toList.dropPrefix? "grep -qF '".toList, text.toList.dropPrefix? "echo '".toList with
  | some cs, _ => do
    let file ← (quoted cs).2.dropPrefix? " ".toList
    let file ← file.dropSuffix? " 2>/dev/null && echo FOUND || echo MISSING".toList
    some (.check (quoted cs).1 (String.ofList file))
  | none, some cs => do
    let file ← (quoted cs).2.dropPrefix? " >> ".toList
    some (.append (quoted cs).1 (String.ofList file))
  | none, none => none

/-! ## The run -/

inductive KeygenEnd where
  | generated (privateKey publicKey : String)
  | failed (code : Int) (nonzero : code ≠ 0) (stderr : String)
  | notStarted (e : OSError)

/-- How an ssh call ends: with the answer of the host, without it (and the host may have run the
command or not), or before it began. -/
inductive CallEnd where
  | answered
  | dropped (ran : Bool) (stderr : String)
  | notStarted (e : OSError)

/-- What paths and destinations mean. -/
structure Cluster (F : Type) where
  cwd : List Component
  /-- the file that a path is at an ssh destination -/
  store : String → String → F

structure KeyEnv (F : Type) where
  keygen : Nat → KeygenEnd
  call : Nat → CallEnd
  /-- what a host answers to a command that is not about a text file -/
  answer : Nat → CompletedProcess
  refuses : F → Bool
  fault : KeyOp → Option OSError

/-- The state, and the operations so far, newest first. -/
structure KeyWorld (F : Type) where
  files : KeyFiles
  authorized : F → Option String
  log : List KeyOp := []

/-- The file that `ssh-keygen` is called for. -/
def keygenFile? : Invocation → Option String
  | .argv ("ssh-keygen" :: args) => (args.dropWhile (· ≠ "-f"))[1]?
  | _ => none

namespace KeyEnv

variable {F : Type} [DecidableEq F] (cluster : Cluster F) (env : KeyEnv F)

/-- `ssh-keygen -f file`. -/
def runKeygen (n : Nat) (file : String) (files : KeyFiles) :
    Except OSError CompletedProcess × KeyFiles :=
  match env.keygen n with
  | .generated privateKey publicKey =>
    match files.create ((Path.ofString file).locate cluster.cwd) privateKey with
    | none => (.ok ⟨1, "", "Saving key failed"⟩, files)
    | some t =>
      match t.create ((Path.ofString (file ++ ".pub")).locate cluster.cwd) publicKey with
      | none => (.ok ⟨1, "", "Saving key failed"⟩, t)
      | some u => (.ok ⟨0, "", ""⟩, u)
  | .failed code _ stderr => (.ok ⟨code, "", stderr⟩, files)
  | .notStarted e => (.error e, files)

/-- A command on a host. -/
def runRemote (n : Nat) (destination text : String) (authorized : F → Option String) :
    CompletedProcess × (F → Option String) :=
  match RemoteCommand.ofText? text with
  | some (.check key file) =>
    let found := HoldsKey authorized (cluster.store destination file) key
    (⟨0, if found then "FOUND\n" else "MISSING\n", ""⟩, authorized)
  | some (.append key file) =>
    let f := cluster.store destination file
    if env.refuses f then (⟨1, "", "cannot create"⟩, authorized)
    else (⟨0, "", ""⟩,
      Function.update authorized f (some ((authorized f).getD "" ++ key ++ "\n")))
  | none => (env.answer n, authorized)

/-- An ssh call. -/
def runCall (n : Nat) (destination text : String) (authorized : F → Option String) :
    Except OSError CompletedProcess × (F → Option String) :=
  let r := env.runRemote cluster n destination text authorized
  match env.call n with
  | .answered => (.ok r.1, r.2)
  | .dropped ran stderr => (.ok ⟨255, "", stderr⟩, if ran then r.2 else authorized)
  | .notStarted e => (.error e, authorized)

/-- The answer to an operation, and the state after it. -/
def act (n : Nat) : (o : KeyOp) → KeyFiles → (F → Option String) →
    KeyAnswer o × KeyFiles × (F → Option String)
  | .mkdir path, t, a =>
    let r := Env.update (env.fault (.mkdir path)) ⟨"File exists", false⟩
      (t.mkdirs (path.locate cluster.cwd)) t
    (r.1, r.2, a)
  | .pathExists path, t, a => (t.has (path.locate cluster.cwd), t, a)
  | .readText path, t, a =>
    match env.fault (.readText path), t.content? (path.locate cluster.cwd) with
    | some e, _ => (.error e, t, a)
    | none, some text => (.ok text, t, a)
    | none, none => (.error ⟨"cannot read", (t.get? (path.locate cluster.cwd)).isNone⟩, t, a)
  | .chmod path mode, t, a =>
    match env.fault (.chmod path mode) with
    | some e => (.error e, t, a)
    | none => (.ok (), t, a)
  | .run cmd, t, a =>
    match keygenFile? cmd, cmd.destination? with
    | some file, _ => let r := env.runKeygen cluster n file t; (r.1, r.2, a)
    | none, some destination => let r := env.runCall cluster n destination cmd.text a; (r.1, t, r.2)
    | none, none => (.ok (env.answer n), t, a)

def handler : Handler KeySys (KeyWorld F) := fun o w =>
  let r := env.act cluster w.log.length o w.files w.authorized
  (r.1, ⟨r.2.1, r.2.2, o :: w.log⟩)

end KeyEnv

end SrvBackup.Adapters
