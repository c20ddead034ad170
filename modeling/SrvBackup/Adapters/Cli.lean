import SrvBackup.Adapters.Orchestrator

/-!
# The backup command

`cliBackup` is the command from the parsed server list on. What `backup_all` returns and how the
mail services end are arguments. `Except` stands for an exception that leaves the command.
-/
namespace SrvBackup.Adapters

open SrvBackup.Domain

inductive ExitCode where
  | success
  | generalError
  | invalidArgument
  deriving DecidableEq, Repr

def ExitCode.value : ExitCode → Nat
  | .success => 0
  | .generalError => 1
  | .invalidArgument => 22

/-- How loading the mail configuration ends, and how sending ends. -/
structure MailServices (MailConfig : Type) where
  loadEmailConfigFromDict : Except Error MailConfig
  sendNotification (config : MailConfig) (subject message : String) : Except Error Unit

/-- Every exception of the services is caught and logged. -/
def sendSummaryEmail {MailConfig : Type} (services : MailServices MailConfig)
    (summary : BackupSummary) (report : String) : Except Error Unit :=
  tryCatch
    (do
      let emailConfig ← services.loadEmailConfigFromDict
      let subject := buildSummarySubject summary
      services.sendNotification emailConfig subject report)
    fun _ => pure ()

/-- `--server`; an empty text is no choice. -/
def selectServers (servers : List ServerConfig) : Option String → List ServerConfig
  | none => servers
  | some name => if name = "" then servers else servers.filter fun s => s.name = name

def cliBackup {MailConfig : Type} (servers : List ServerConfig) (server : Option String)
    (dryRun : Bool) (config : Except Error BackupSettings)
    (backupAll : List ServerConfig → BackupSettings → Except Error BackupSummary)
    (services : MailServices MailConfig) : Except Error ExitCode :=
  if servers = [] then pure .generalError
  else if selectServers servers server = [] then pure .invalidArgument
  else do
    let settings ← config
    let summary ← backupAll (selectServers servers server) settings
    let report := buildSummaryReport summary
    if !dryRun then sendSummaryEmail services summary report
    pure (if !summary.allOk then .generalError else .success)

/-- The command ends with a non-zero status, or with an exception. -/
def ExitsNonZero : Except Error ExitCode → Prop
  | .ok code => code.value ≠ 0
  | .error _ => True

theorem sendSummaryEmail_eq_ok {MailConfig : Type} (services : MailServices MailConfig)
    (summary : BackupSummary) (report : String) :
    sendSummaryEmail services summary report = .ok () := by
  have hcaught : ∀ x : Except Error Unit, tryCatch x (fun _ => pure ()) = .ok () := by
    rintro (e | _) <;> rfl
  exact hcaught _

/-- The mail services have no say in the exit code. -/
theorem cliBackup_exit {MailConfig : Type} {servers : List ServerConfig} {server : Option String}
    (hselect : selectServers servers server ≠ []) (dryRun : Bool) (settings : BackupSettings)
    {backupAll : List ServerConfig → BackupSettings → Except Error BackupSummary}
    {summary : BackupSummary}
    (hsummary : backupAll (selectServers servers server) settings = .ok summary)
    (services : MailServices MailConfig) :
    cliBackup servers server dryRun (.ok settings) backupAll services =
      .ok (if summary.allOk then .success else .generalError) := by
  have hservers : servers ≠ [] := by
    rintro rfl
    cases server <;> simp [selectServers] at hselect
  simp only [cliBackup, hservers, hselect, if_false, sendSummaryEmail_eq_ok, bind, Except.bind,
    hsummary]
  cases dryRun <;> cases summary.allOk <;> rfl

end SrvBackup.Adapters
