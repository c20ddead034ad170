import SrvBackup.Adapters.Cli
import SrvBackup.Effects.Completion

/-!
# The backup command and its pool

`BackupAllEnds` is `backup_all` from the submission of the runs to the summary: any schedule of
the pool, and any order in which the futures complete. `backupCommand` is the command with what it
prints and what it asks of the mail services, as a program; `run_backupCommand` connects it to
`cliBackup`.
-/
namespace SrvBackup.Adapters

open SrvBackup.Domain SrvBackup.Effects SrvBackup.Storage

section BackupAll

variable (steps : Steps) (servers : List ServerConfig) (config : Except Error BackupSettings)
  (types : BackupType) (maxParallel : Int) (dryRun : Bool) (env : Fin servers.length → Env)
  (files : Files)

/-- The pool before the first run is started. -/
def backupStart : Pool Sys Error BackupResult (Machine servers.length) servers.length :=
  Pool.initial (backupPool steps servers config types dryRun) ⟨files, fun _ => []⟩

/-- How `backup_all` ends, and what it leaves: `ThreadPoolExecutor` refuses to work with no
worker, and otherwise the futures are collected in any order. -/
inductive BackupAllEnds : Except Error BackupSummary → Machine servers.length → Prop where
  | refused : maxParallel ≤ 0 →
      BackupAllEnds (.error (.other "max_workers must be greater than 0"))
        ⟨files, fun _ => []⟩
  | returned {c : Pool Sys Error BackupResult (Machine servers.length) servers.length}
      {ends : Fin servers.length → Except Error BackupResult} {order : List (Fin servers.length)}
      (totalDuration : ℚ) : 0 < maxParallel →
      Pool.Reaches (poolHandler env) maxParallel.toNat
        (backupStart steps servers config types dryRun files) c →
      c.Complete → (∀ i, (c.thread i).end? = some (ends i)) →
      order.Perm (List.finRange servers.length) →
      BackupAllEnds (.ok (backupAll (order.map fun i => (servers.get i, ends i)) totalDuration))
        c.shared

end BackupAll

/-! ## The command -/

inductive CommandOp (MailConfig : Type) where
  | echo (text : String) (err : Bool)
  | backupAll (servers : List ServerConfig) (settings : BackupSettings) (types : BackupType)
      (dryRun : Bool)
  | loadEmailConfigFromDict
  | sendNotification (config : MailConfig) (subject message : String)

@[reducible] def CommandOp.Answer {MailConfig : Type} : CommandOp MailConfig → Type
  | .echo _ _ => Unit
  | .backupAll _ _ _ _ => Except Error BackupSummary
  | .loadEmailConfigFromDict => Except Error MailConfig
  | .sendNotification _ _ _ => Except Error Unit

def Command (MailConfig : Type) : Signature := ⟨CommandOp MailConfig, CommandOp.Answer⟩

/-- What leaves a command: `ctx.exit`, or an exception. -/
inductive CommandEnd where
  | exit (code : ExitCode)
  | error (e : Error)
  deriving DecidableEq

/-- An answer of a service, whose exception goes on. -/
def raising {E : Signature} {α : Type} : Except Error α → Program E CommandEnd α
  | .ok a => .ret a
  | .error e => .raise (.error e)

theorem run_raising {E : Signature} {α σ : Type} (h : Handler E σ) (x : Except Error α) (s : σ) :
    (raising x).run h s = (x.mapError .error, s) := by
  cases x <;> rfl

section Command

variable {MailConfig : Type}

abbrev CommandProg (MailConfig : Type) := Program (Command MailConfig) CommandEnd

def echo (text : String) (err : Bool := false) : CommandProg MailConfig Unit :=
  .op (E := Command MailConfig) (.echo text err) .ret

def loadEmailConfigFromDict : CommandProg MailConfig MailConfig :=
  .op (E := Command MailConfig) .loadEmailConfigFromDict raising

def sendNotification (config : MailConfig) (subject message : String) :
    CommandProg MailConfig Unit :=
  .op (E := Command MailConfig) (.sendNotification config subject message) raising

/-- `services.backup_all`. -/
def callBackupAll (servers : List ServerConfig) (settings : BackupSettings) (types : BackupType)
    (dryRun : Bool) : CommandProg MailConfig BackupSummary :=
  .op (E := Command MailConfig) (.backupAll servers settings types dryRun) raising

/-- `_send_summary_email`: an exception of either service is caught and logged. -/
def sendingSummaryEmail (summary : BackupSummary) (report : String) :
    CommandProg MailConfig Unit :=
  Program.handle
    (do
      let emailConfig ← loadEmailConfigFromDict
      let subject := buildSummarySubject summary
      sendNotification emailConfig subject report)
    fun _ => pure ()

/-- The line that a dry run prints for a server. -/
def dryRunLine (server : ServerConfig) : String :=
  let mode := if server.isLocal then "local" else "ssh"
  let types := (if server.backupConfigfiles then ["config"] else []) ++
    (if server.backupSnapshot then ["zfs"] else [])
  let typesStr := if types = [] then "none" else "+".intercalate types
  "  " ++ server.name ++ " (" ++ server.hostname ++ ") [" ++ mode ++ "] [" ++ typesStr ++ "]"

def announceDryRun (servers : List ServerConfig) : CommandProg MailConfig Unit := do
  echo ("[DRY-RUN] Would backup " ++ toString servers.length ++ " server(s):")
  Program.forEach servers fun server => echo (dryRunLine server)

/-- `cli_backup`, from the parsed server list on. -/
def backupCommand (servers : List ServerConfig) (server : Option String) (types : BackupType)
    (dryRun : Bool) (config : Except Error BackupSettings) : CommandProg MailConfig Unit :=
  if servers = [] then do
    echo "No servers configured in [backup.servers] section." true
    .raise (.exit .generalError)
  else if selectServers servers server = [] then do
    echo ("Server '" ++ server.getD "" ++ "' not found in configuration.") true
    .raise (.exit .invalidArgument)
  else do
    if dryRun then announceDryRun (selectServers servers server)
    let settings ← raising config
    let summary ← callBackupAll (selectServers servers server) settings types dryRun
    let report := buildSummaryReport summary
    echo ""
    echo report
    if !dryRun then sendingSummaryEmail summary report
    if !summary.allOk then .raise (.exit .generalError)

/-- The answers of the rest of the program; the state is what the command did, newest first. -/
def commandHandler
    (backupAll : List ServerConfig → BackupSettings → Except Error BackupSummary)
    (services : MailServices MailConfig) :
    Handler (Command MailConfig) (List (CommandOp MailConfig))
  | .echo text err, log => ((), .echo text err :: log)
  | .backupAll servers settings types dryRun, log =>
    (backupAll servers settings, .backupAll servers settings types dryRun :: log)
  | .loadEmailConfigFromDict, log =>
    (services.loadEmailConfigFromDict, .loadEmailConfigFromDict :: log)
  | .sendNotification config subject message, log =>
    (services.sendNotification config subject message,
      .sendNotification config subject message :: log)

/-- The exit code that the process gets, or the exception that it sees. -/
def CommandEnd.code : Except CommandEnd Unit → Except Error ExitCode
  | .ok () => .ok .success
  | .error (.exit code) => .ok code
  | .error (.error e) => .error e

/-- Subject and text of the messages that were handed over, newest first. -/
def sentMessages (log : List (CommandOp MailConfig)) : List (String × String) :=
  log.filterMap fun
    | .sendNotification _ subject message => some (subject, message)
    | _ => none

/-- What was printed, newest first. -/
def printed (log : List (CommandOp MailConfig)) : List String :=
  log.filterMap fun
    | .echo text _ => some text
    | _ => none

/-! ## How a run goes -/

section Run

variable {servers : List ServerConfig} {server : Option String} {types : BackupType}
  {dryRun : Bool} {config : Except Error BackupSettings}
  {backupAll : List ServerConfig → BackupSettings → Except Error BackupSummary}
  {services : MailServices MailConfig} {log : List (CommandOp MailConfig)}

/-- What the command does after `backup_all`, newest first. -/
def afterSummary (services : MailServices MailConfig) (dryRun : Bool) (summary : BackupSummary) :
    List (CommandOp MailConfig) :=
  (if dryRun then [] else
    match services.loadEmailConfigFromDict with
    | .ok mail => [.sendNotification mail (buildSummarySubject summary)
        (buildSummaryReport summary), .loadEmailConfigFromDict]
    | .error _ => [.loadEmailConfigFromDict]) ++
  [.echo (buildSummaryReport summary) false, .echo "" false]

@[simp] theorem run_loadEmailConfigFromDict :
    loadEmailConfigFromDict.run (commandHandler backupAll services) log =
      (services.loadEmailConfigFromDict.mapError .error, .loadEmailConfigFromDict :: log) :=
  run_raising _ _ _

@[simp] theorem run_sendNotification (mail : MailConfig) (subject message : String) :
    (sendNotification mail subject message).run (commandHandler backupAll services) log =
      ((services.sendNotification mail subject message).mapError .error,
        .sendNotification mail subject message :: log) :=
  run_raising _ _ _

@[simp] theorem run_callBackupAll (selected : List ServerConfig) (settings : BackupSettings) :
    (callBackupAll selected settings types dryRun).run (commandHandler backupAll services) log =
      ((backupAll selected settings).mapError .error,
        .backupAll selected settings types dryRun :: log) :=
  run_raising _ _ _

@[simp] theorem run_echo (text : String) (err : Bool) :
    (echo text err).run (commandHandler backupAll services) log =
      (.ok (), .echo text err :: log) := rfl

theorem run_sendingSummaryEmail (summary : BackupSummary) (report : String) :
    (sendingSummaryEmail summary report).run (commandHandler backupAll services) log =
      (.ok (), (match services.loadEmailConfigFromDict with
        | .ok mail => [.sendNotification mail (buildSummarySubject summary) report,
            .loadEmailConfigFromDict]
        | .error _ => [.loadEmailConfigFromDict]) ++ log) := by
  rw [sendingSummaryEmail, Program.run_handle, Program.bind_eq, Program.run_bind,
    run_loadEmailConfigFromDict]
  cases services.loadEmailConfigFromDict with
  | error e => rfl
  | ok mail =>
    simp only [Except.mapError, run_sendNotification]
    cases services.sendNotification mail (buildSummarySubject summary) report <;> rfl

/-- What the announcement of a dry run prints, newest first. -/
def dryRunEchoes (selected : List ServerConfig) : List (CommandOp MailConfig) :=
  (selected.map fun s => .echo (dryRunLine s) false).reverse ++
    [.echo ("[DRY-RUN] Would backup " ++ toString selected.length ++ " server(s):") false]

theorem run_announceDryRun (selected : List ServerConfig) :
    (announceDryRun selected).run (commandHandler backupAll services) log =
      (.ok (), dryRunEchoes selected ++ log) := by
  have hlines : ∀ (ss : List ServerConfig) (log : List (CommandOp MailConfig)),
      (Program.forEach ss fun s => (echo (dryRunLine s) : CommandProg MailConfig Unit)).run
          (commandHandler backupAll services) log =
        (.ok (), (ss.map fun s => .echo (dryRunLine s) false).reverse ++ log) := by
    intro ss
    induction ss with
    | nil => exact fun _ => rfl
    | cons s ss ih =>
      intro log
      rw [Program.forEach, Program.run_bind_ok (t := .echo (dryRunLine s) false :: log) rfl, ih]
      simp
  rw [announceDryRun, Program.bind_eq, Program.run_bind_ok (run_echo _ _), hlines]
  simp [dryRunEchoes]

/-- What a command with a summary did, newest first. -/
def commandLog (services : MailServices MailConfig) (selected : List ServerConfig)
    (settings : BackupSettings) (types : BackupType) (dryRun : Bool) (summary : BackupSummary) :
    List (CommandOp MailConfig) :=
  afterSummary services dryRun summary ++ .backupAll selected settings types dryRun ::
    (if dryRun then dryRunEchoes selected else [])

/-- A command that comes to `backup_all` and gets a summary. -/
theorem run_backupCommand {settings : BackupSettings} {summary : BackupSummary}
    (hselect : selectServers servers server ≠ [])
    (hsummary : backupAll (selectServers servers server) settings = .ok summary) :
    (backupCommand servers server types dryRun (.ok settings)).run
        (commandHandler backupAll services) log =
      (if summary.allOk then .ok () else .error (.exit .generalError),
        commandLog services (selectServers servers server) settings types dryRun summary ++
          log) := by
  have hservers : servers ≠ [] := by
    rintro rfl
    cases server <;> simp [selectServers] at hselect
  rw [backupCommand, if_neg hservers, if_neg hselect]
  cases dryRun <;> cases hok : summary.allOk <;>
    simp [Program.run_bind, run_announceDryRun, raising, hsummary, Except.mapError,
      run_sendingSummaryEmail, commandLog, afterSummary, hok]

theorem sentMessages_dryRunEchoes (selected : List ServerConfig) :
    sentMessages (dryRunEchoes selected : List (CommandOp MailConfig)) = [] := by
  simp [sentMessages, dryRunEchoes]

/-- One message, unless the run is dry or the mail settings cannot be loaded. -/
theorem sentMessages_commandLog (services : MailServices MailConfig)
    (selected : List ServerConfig) (settings : BackupSettings) (types : BackupType) (dryRun : Bool)
    (summary : BackupSummary) :
    sentMessages (commandLog services selected settings types dryRun summary) =
      if dryRun ∨ ¬ services.loadEmailConfigFromDict.isOk then []
      else [(buildSummarySubject summary, buildSummaryReport summary)] := by
  have hdry : sentMessages (dryRunEchoes selected : List (CommandOp MailConfig)) = [] :=
    sentMessages_dryRunEchoes selected
  unfold sentMessages at hdry ⊢
  cases dryRun <;> cases hload : services.loadEmailConfigFromDict <;>
    simp [commandLog, afterSummary, hload, Except.isOk, Except.toBool, hdry]

theorem printed_commandLog (services : MailServices MailConfig) (selected : List ServerConfig)
    (settings : BackupSettings) (types : BackupType) (dryRun : Bool) (summary : BackupSummary) :
    (printed (commandLog services selected settings types dryRun summary)).head? =
      some (buildSummaryReport summary) := by
  unfold printed
  cases dryRun <;> cases hload : services.loadEmailConfigFromDict <;>
    simp [commandLog, afterSummary, hload]

/-- The exit code is that of `cliBackup`. -/
theorem code_backupCommand (servers : List ServerConfig) (server : Option String)
    (types : BackupType) (dryRun : Bool) (config : Except Error BackupSettings)
    (backupAll : List ServerConfig → BackupSettings → Except Error BackupSummary)
    (services : MailServices MailConfig) (log : List (CommandOp MailConfig)) :
    CommandEnd.code ((backupCommand servers server types dryRun config).run
        (commandHandler backupAll services) log).1 =
      cliBackup servers server dryRun config backupAll services := by
  by_cases hservers : servers = []
  · rw [backupCommand, cliBackup, if_pos hservers, if_pos hservers]
    rfl
  by_cases hselect : selectServers servers server = []
  · rw [backupCommand, cliBackup, if_neg hservers, if_neg hservers, if_pos hselect, if_pos hselect]
    rfl
  cases config with
  | error e =>
    rw [backupCommand, cliBackup, if_neg hservers, if_neg hservers, if_neg hselect, if_neg hselect]
    cases dryRun <;> simp [Program.run_bind, run_announceDryRun, raising, CommandEnd.code] <;> rfl
  | ok settings =>
    cases hsummary : backupAll (selectServers servers server) settings with
    | error e =>
      have hraises : cliBackup servers server dryRun (.ok settings) backupAll services =
          .error e := by
        simp only [cliBackup, hservers, hselect, if_false, bind, Except.bind, hsummary]
      rw [hraises, backupCommand, if_neg hservers, if_neg hselect]
      cases dryRun <;> simp [Program.run_bind, run_announceDryRun, raising, hsummary,
        Except.mapError, CommandEnd.code]
    | ok summary =>
      rw [run_backupCommand hselect hsummary, cliBackup_exit hselect dryRun settings hsummary]
      cases summary.allOk <;> rfl

theorem printed_commandLog_dryRun (services : MailServices MailConfig)
    (selected : List ServerConfig) (settings : BackupSettings) (types : BackupType)
    (summary : BackupSummary) :
    (printed (commandLog services selected settings types true summary)).reverse =
      ("[DRY-RUN] Would backup " ++ toString selected.length ++ " server(s):") ::
        selected.map dryRunLine ++ ["", buildSummaryReport summary] := by
  have hlines : (selected.map fun s => (.echo (dryRunLine s) false : CommandOp MailConfig)
      ).filterMap (fun | .echo text _ => some text | _ => none) = selected.map dryRunLine := by
    rw [List.filterMap_map]
    exact List.filterMap_eq_map_iff_forall_eq_some.mpr fun _ _ => rfl
  simp only [printed, commandLog, afterSummary, dryRunEchoes, if_true, List.nil_append,
    List.cons_append, List.filterMap_cons, List.filterMap_append, List.filterMap_reverse, hlines]
  simp

end Run

end Command

end SrvBackup.Adapters
