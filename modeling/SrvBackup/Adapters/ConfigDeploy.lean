import SrvBackup.Adapters.ConfigLoad

/-!
# Deploying the configuration

The command `config-deploy` hands what the command line says to the library that writes the files,
as one `DeployRequest`. It does not look at the configuration that the root has loaded; of the
overrides it takes those of the permission settings, from the tree of which the command `config`
lays the same keys over what it shows.

A mode arrives as a number: the library reads the text of one.
-/
namespace SrvBackup.Adapters

open SrvBackup.Effects SrvBackup.Storage

/-- `type(value).__name__`. -/
def Scalar.typeName : Scalar → String
  | .null => "NoneType"
  | .bool _ => "bool"
  | .int _ => "int"
  | .float _ => "float"
  | .str _ => "str"
  | .list _ => "list"

inductive DeployTarget where
  | app
  | host
  | user
  deriving DecidableEq, Repr

structure DeployRequest where
  targets : List DeployTarget
  force : Bool
  profile : Option String
  setPermissions : Option Bool
  dirMode : Option Nat
  fileMode : Option Nat
  permissionOverrides : Option (Table String Scalar)

/-- How the library fails: with refused permission settings, for which it has a hint or not, without
the permission to write, with an exit, or otherwise. -/
inductive DeployError where
  | permissionSettings (problems : List String) (hint : Bool)
  | permission (text : String)
  | exit (code : Nat)
  | other (text : String)
  deriving DecidableEq, Repr

/-- What became of a file; `other` is every action that leaves it as it is. -/
inductive DeployAction where
  | created
  | overwritten
  | other
  deriving DecidableEq, Repr

structure DeployResult where
  destination : Path
  action : DeployAction
  dotDResults : List (Path × DeployAction)

inductive DeployOp where
  | echo (text : String) (err : Bool)
  | deployConfig (request : DeployRequest)

@[reducible] def DeployOp.Answer : DeployOp → Type
  | .echo _ _ => Unit
  | .deployConfig _ => Except DeployError (List DeployResult)

def DeploySys : Signature := ⟨DeployOp, DeployOp.Answer⟩

/-- How the command ends before its end. -/
inductive DeployEnd where
  | usage (message : String)
  | exit (code : Nat)
  | raised
  deriving DecidableEq, Repr

abbrev DeployProg := Program DeploySys DeployEnd

namespace Deploy

def echo (text : String) (err : Bool := false) : DeployProg Unit :=
  .op (E := DeploySys) (.echo text err) .ret

def deployConfig (request : DeployRequest) :
    DeployProg (Except DeployError (List DeployResult)) :=
  .op (E := DeploySys) (.deployConfig request) .ret

end Deploy

/-- `_DEPLOYED_ACTIONS`. -/
def deployedActions : List DeployAction := [.created, .overwritten]

/-- The files that were written. -/
def deployedPaths (results : List DeployResult) : List Path :=
  results.flatMap fun result =>
    (if result.action ∈ deployedActions then [result.destination] else []) ++
      (result.dotDResults.filter fun dotD => dotD.2 ∈ deployedActions).map Prod.fst

/-- `deploy_configuration`. -/
def deployConfiguration (validateProfile : String → Except String Unit) (request : DeployRequest) :
    DeployProg (Except DeployError (List Path)) :=
  match request.profile.elim (.ok ()) validateProfile with
  | .error text => pure (.error (.other text))
  | .ok () => do
    let results ← Deploy.deployConfig request
    pure (results.map deployedPaths)

def layeredConfigSection : String := "lib_layered_config"

def permissionsKey : String := "default_permissions"

def mustBeTable (a : Scalar) : String :=
  "Error: " ++ layeredConfigSection ++ "." ++ permissionsKey ++ ": must be a table, got " ++
    a.typeName ++ " (source: override)"

/-- `_permission_overrides`. -/
def permissionOverrides (loads : String → Option Value) (setOverrides : List String) :
    DeployProg (Option (Table String Scalar)) :=
  match nestOverrides loads setOverrides with
  | .error _ => .raise .raised
  | .ok (tree, _) =>
    match (tree.lookup layeredConfigSection).getD (.table []) with
    | .leaf _ => .raise .raised
    | .table entries =>
      match entries.lookup permissionsKey with
      | none => pure none
      | some (.table value) => pure (some value)
      | some (.leaf a) => do
        Deploy.echo (mustBeTable a) true
        .raise (.exit configError)

/-- `_DEPLOY_ANYWAY_HINT`. -/
def deployAnywayHint : String :=
  "Hint: to deploy anyway, pass both --dir-mode and --file-mode (the built-in modes are 700 and " ++
    "600 for user, 755 and 644 for app and host); --no-permissions also deploys, but leaves " ++
    "every mode to the umask, which can make a user file that holds secrets readable by other " ++
    "accounts."

/-- `ExitCode.PERMISSION_DENIED`. -/
def permissionDenied : Nat := 13

/-- `ExitCode.GENERAL_ERROR`. -/
def generalError : Nat := 1

/-- What is printed for an error of the library, and the exit. -/
def refuseDeploy : DeployError → DeployProg Unit
  | .permissionSettings problems hint => do
    Program.forEach problems fun problem => Deploy.echo ("Error: " ++ problem) true
    if hint then Deploy.echo deployAnywayHint true
    .raise (.exit configError)
  | .permission text => do
    Deploy.echo ("\nError: Permission denied. " ++ text) true
    Deploy.echo "Hint: System-wide deployment (--target app/host) may require sudo." true
    .raise (.exit permissionDenied)
  | .exit code => .raise (.exit code)
  | .other text => do
    Deploy.echo ("\nError: Failed to deploy configuration: " ++ text) true
    .raise (.exit generalError)

/-- `_report_deployment_result`. -/
def reportDeploymentResult (paths : List Path) (request : DeployRequest) : DeployProg Unit :=
  if paths ≠ [] then do
    let profileMsg := (given request.profile).elim "" fun profile => " (profile: " ++ profile ++ ")"
    let permMsg := if request.setPermissions = some false then " (permissions not set)" else ""
    Deploy.echo ("\nConfiguration deployed successfully" ++ profileMsg ++ permMsg ++ ":")
    Program.forEach paths fun path => Deploy.echo ("  + " ++ path.str)
  else if request.force then
    Deploy.echo
      "\nNo files were written: every target file is already identical to the bundled one."
  else do
    Deploy.echo "\nNo files were created (all target files already exist)."
    Deploy.echo "Use --force to overwrite existing configuration files."

/-- The options of the command. -/
structure DeployOptions where
  targets : List DeployTarget
  force : Bool := false
  profile : Option String := none
  setPermissions : Option Bool := none
  dirMode : Option Nat := none
  fileMode : Option Nat := none

/-- A mode cannot be applied while permission setting is off. -/
def DeployOptions.Contradict (options : DeployOptions) : Prop :=
  options.setPermissions = some false ∧ (options.dirMode.isSome ∨ options.fileMode.isSome)

instance (options : DeployOptions) : Decidable options.Contradict := by
  unfold DeployOptions.Contradict
  infer_instance

def DeployOptions.request (options : DeployOptions) (profile : Option String)
    (overrides : Option (Table String Scalar)) : DeployRequest :=
  ⟨options.targets, options.force, profile, options.setPermissions, options.dirMode,
    options.fileMode, overrides⟩

section Command

variable {R : Type} (services : AppServices R)

/-- `_execute_deploy`. -/
def executeDeploy (context : CLIContext) (options : DeployOptions) (profile : Option String) :
    DeployProg Unit := do
  let overrides ← permissionOverrides services.loads context.setOverrides
  let request := options.request profile overrides
  match ← deployConfiguration services.validateProfile request with
  | .ok paths => reportDeploymentResult paths request
  | .error error => refuseDeploy error

def cliConfigDeploy (context : CLIContext) (options : DeployOptions) : DeployProg Unit :=
  if options.Contradict then
    .raise (.usage ("--no-permissions cannot be combined with --dir-mode or --file-mode: " ++
      "a mode cannot be applied while permission setting is off"))
  else executeDeploy services context options (getEffectiveProfile context options.profile)

/-- `_check_profile_name`. -/
def checkProfileName : Option String → Except Stop Unit
  | none => .ok ()
  | some profile => (services.validateProfile profile).mapError fun text =>
      usageError ("Invalid value for '--profile': " ++ text)

/-- `config-deploy` in a new process: click reads its options after the root has run. -/
def configDeploy (rootProfile : Option String) (setOverrides : List String)
    (envFile : Option String) (environ : Environ) (options : DeployOptions) :
    Except Stop (DeployProg Unit) := do
  let (_, context) ← cli services rootProfile setOverrides envFile (newProcess services environ)
  checkProfileName services options.profile
  pure (cliConfigDeploy services context options)

end Command

/-- The library's answers; what is printed and asked for is noted down, newest first. -/
def deployHandler (library : DeployRequest → Except DeployError (List DeployResult)) :
    Handler DeploySys (List DeployOp)
  | .echo text err, log => ((), .echo text err :: log)
  | .deployConfig request, log => (library request, .deployConfig request :: log)

/-- What the library was asked for. -/
def requests (log : List DeployOp) : List DeployRequest :=
  log.filterMap fun
    | .deployConfig request => some request
    | .echo _ _ => none

/-- The exit code for an error. -/
def DeployError.code : DeployError → Nat
  | .permissionSettings _ _ => configError
  | .permission _ => permissionDenied
  | .exit code => code
  | .other _ => generalError

end SrvBackup.Adapters
