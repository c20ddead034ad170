import SrvBackup.Adapters.BackupCommand
import SrvBackup.Adapters.SetupKeys

/-!
# The command that sets up keys

`setupKeysCommand` is `cli_setup_keys` from the parsed server list on, with what it prints, as a
program. It calls `setup_keys` once, and its exit code is decided by the results of that call.
-/
namespace SrvBackup.Adapters

open SrvBackup.Domain SrvBackup.Effects SrvBackup.Storage

inductive KeysCommandOp where
  | echo (text : String) (err : Bool)
  | setupKeys (servers : List ServerConfig) (settings : KeySettings)

@[reducible] def KeysCommandOp.Answer : KeysCommandOp → Type
  | .echo _ _ => Unit
  | .setupKeys _ _ => Except Error KeyResults

def KeysCommand : Signature := ⟨KeysCommandOp, KeysCommandOp.Answer⟩

abbrev KeysCommandProg := Program KeysCommand CommandEnd

namespace KeysCommand

def echo (text : String) (err : Bool := false) : KeysCommandProg Unit :=
  .op (E := KeysCommand) (.echo text err) .ret

/-- `services.setup_keys`. -/
def callSetupKeys (servers : List ServerConfig) (settings : KeySettings) :
    KeysCommandProg KeyResults :=
  .op (E := KeysCommand) (.setupKeys servers settings) raising

end KeysCommand

/-- The arguments of the call. -/
def BackupSettings.keySettings (settings : BackupSettings) : KeySettings :=
  ⟨Path.ofString settings.sshKeyDir, settings.sshKeyPrefix, settings.bootstrapKey,
    settings.authorizedKeysPath⟩

/-- `sorted(results.items())`; no two items have the same name. -/
def sortedItems (results : KeyResults) : List (String × Bool) :=
  (results.entries.map fun entry => (entry.1, entry.2)).insertionSort fun x y => x.1 ≤ y.1

def keyResultLine (item : String × Bool) : String :=
  "  [" ++ (if item.2 then "+" else "!") ++ "] " ++ item.1 ++ ": " ++
    (if item.2 then "OK" else "FAILED")

/-- What is printed before the call. -/
def keysHeader (servers : List ServerConfig) (settings : BackupSettings) : List String :=
  ["Setting up SSH keys for " ++ toString servers.length ++ " server(s)...",
    "  Key directory: " ++ settings.sshKeyDir,
    "  Key prefix: " ++ settings.sshKeyPrefix,
    "  Bootstrap key: " ++ settings.bootstrapKey,
    "  Remote authorized_keys: " ++ settings.authorizedKeysPath,
    ""]

def setupKeysCommand (servers : List ServerConfig) (config : Except Error BackupSettings) :
    KeysCommandProg Unit := do
  let settings ← raising config
  if settings.bootstrapKey = "" then do
    KeysCommand.echo "No bootstrap_key configured in [backup] section." true
    .raise (.exit .generalError)
  else do
    Program.forEach (keysHeader servers settings) fun line => KeysCommand.echo line
    let results ← KeysCommand.callSetupKeys servers settings.keySettings
    Program.forEach (sortedItems results) fun item => KeysCommand.echo (keyResultLine item)
    if (sortedItems results).all (·.2) then
      KeysCommand.echo "\nAll keys deployed successfully."
    else do
      KeysCommand.echo "\nSome key deployments failed. Check the log for details." true
      .raise (.exit .generalError)

/-- The call is a run of `setupKeys`; what is printed, and whether to stderr, is noted down, newest
first. -/
def keysCommandHandler {σ : Type} (rule : Path.Pathlib) (h : Handler KeySys σ) :
    Handler KeysCommand (σ × List (String × Bool))
  | .echo text err, (s, lines) => ((), (s, (text, err) :: lines))
  | .setupKeys servers settings, (s, lines) =>
    (((setupKeys rule settings servers).run h s).1, (((setupKeys rule settings servers).run h s).2,
      lines))

/-! ## How a run goes -/

section Run

variable {σ : Type} {rule : Path.Pathlib} {h : Handler KeySys σ}

@[simp] theorem KeysCommand.run_echo (text : String) (err : Bool) (s : σ)
    (lines : List (String × Bool)) :
    (KeysCommand.echo text err).run (keysCommandHandler rule h) (s, lines) =
      (.ok (), (s, (text, err) :: lines)) := rfl

theorem run_echoEach {α : Type} (line : α → String) (xs : List α) (s : σ)
    (lines : List (String × Bool)) :
    (Program.forEach xs fun x => KeysCommand.echo (line x)).run (keysCommandHandler rule h)
        (s, lines) =
      (.ok (), (s, (xs.map fun x => (line x, false)).reverse ++ lines)) := by
  induction xs generalizing lines with
  | nil => rfl
  | cons x xs ih =>
    rw [Program.forEach, Program.run_bind_ok (KeysCommand.run_echo _ _ _ _), ih]
    simp

/-- What is printed after the call. -/
def keysReport (results : KeyResults) : List (String × Bool) :=
  (sortedItems results).map (fun item => (keyResultLine item, false)) ++
    [if (sortedItems results).all (·.2) then ("\nAll keys deployed successfully.", false)
      else ("\nSome key deployments failed. Check the log for details.", true)]

/-- The command with a bootstrap key: its one call, and what its results come to. -/
theorem run_setupKeysCommand {servers : List ServerConfig} {settings : BackupSettings}
    (hboot : settings.bootstrapKey ≠ "") (s : σ) :
    (setupKeysCommand servers (.ok settings)).run (keysCommandHandler rule h) (s, []) =
      match (setupKeys rule settings.keySettings servers).run h s with
      | (.error e, t) => (.error (.error e),
          (t, ((keysHeader servers settings).map fun line => (line, false)).reverse))
      | (.ok results, t) =>
          (if (sortedItems results).all (·.2) then .ok () else .error (.exit .generalError),
            (t, (((keysHeader servers settings).map fun line => (line, false)) ++
              keysReport results).reverse)) := by
  have hcall : ∀ lines, (KeysCommand.callSetupKeys servers settings.keySettings).run
      (keysCommandHandler rule h) (s, lines) =
        (((setupKeys rule settings.keySettings servers).run h s).1.mapError .error,
          (((setupKeys rule settings.keySettings servers).run h s).2, lines)) :=
    fun lines => run_raising _ _ _
  simp only [setupKeysCommand, raising, Program.bind_eq, Program.bind_ret, if_neg hboot]
  rw [Program.run_bind_ok (run_echoEach _ _ _ _), Program.run_bind, hcall]
  rcases (setupKeys rule settings.keySettings servers).run h s with ⟨e | results, t⟩
  · simp [Except.mapError]
  · simp only [Except.mapError]
    rw [Program.run_bind_ok (run_echoEach _ _ _ _)]
    by_cases hall : (sortedItems results).all (·.2)
    · simp only [if_pos hall, keysReport, KeysCommand.run_echo]
      simp
    · simp only [if_neg hall, keysReport]
      rw [Program.run_bind_ok (KeysCommand.run_echo _ _ _ _)]
      simp

end Run

end SrvBackup.Adapters
