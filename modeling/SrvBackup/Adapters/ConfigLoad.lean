import SrvBackup.Adapters.Logging

/-!
# Loading the configuration for a command

The root group `cli` loads the configuration and starts logging before any command runs, and
records a failure; a command asks for the configuration with `requireConfig`. The command `config`
can name a profile of its own, for which it loads the configuration once more.

The tracebacks of `--traceback` are left out, and how a configuration is displayed.
-/
namespace SrvBackup.Adapters

open SrvBackup.Effects SrvBackup.Storage SrvBackup.Text

/-- What the commands get from outside: the loader, with `str` of what it raises; the check of a
profile name; the JSON reader, `repr` and the merge of the overrides; the logging library; and what
the encoding of file names says of a text that it does not take. -/
structure AppServices (R : Type) where
  getConfig (profile dotenvPath : Option String) : Except String Config
  validateProfile : String → Except String Unit
  loads : String → Option Value
  repr : String → String
  withOverrides : Table String Scalar → Table String Scalar → Table String Scalar
  logging : LogLibrary R
  files : DotenvFiles
  unencodable : String → Option Message

/-- How a command ends without its result: with an exit code and the lines that say why, or with an
exception that nothing handles. -/
inductive Stop where
  | exit (code : Nat) (lines : List String)
  | raised
  deriving DecidableEq, Repr

/-- `click.UsageError`. -/
def usageError (message : String) : Stop := .exit 2 ["Error: " ++ message]

/-- The error that the root records. -/
inductive LoadError where
  | load (text : String)
  | logging (error : InvalidLoggingConfigError)

/-- `ExitCode.CONFIG_ERROR`. -/
def configError : Nat := 78

/-- `report_load_failure`, and the exit after it. -/
def reportLoadFailure (error : LoadError) : Stop :=
  let problems := match error with
    | .load text => [text]
    | .logging error => error.problems
  .exit configError (problems.map ("Error: " ++ ·))

structure CLIContext where
  config : Config
  profile : Option String
  setOverrides : List String
  envFile : Option String
  configError : Option LoadError

section Services

variable {R : Type} (services : AppServices R)

def checkProfile : Option String → Except Stop Unit
  | none => .ok ()
  | some profile => (services.validateProfile profile).mapError usageError

def checkOverrides (setOverrides : List String) : Except Stop Unit :=
  match nestOverrides services.loads setOverrides with
  | .ok _ => .ok ()
  | .error (.valueError error) => .error (usageError (error.text services.repr))
  | .error _ => .error .raised

/-- `_check_command_line`. -/
def checkCommandLine (profile : Option String) (setOverrides : List String) : Except Stop Unit := do
  checkProfile services profile
  checkOverrides services setOverrides

def loadConfig (profile envFile : Option String) (setOverrides : List String) :
    Except Stop (Config × Option LoadError) := do
  checkCommandLine services profile setOverrides
  match services.getConfig profile envFile with
  | .error text => pure (emptyConfig, some (.load text))
  | .ok config =>
    match applyOverrides services.loads services.withOverrides config setOverrides with
    | .ok config => pure (config, none)
    | .error _ => throw .raised

/-- A process in which nothing runs yet. -/
def newProcess (environ : Environ) : Process R := ⟨environ, services.unencodable, none⟩

def startLogging (config : Config) (configError : Option LoadError) (envFile : Option String)
    (process : Process R) : Except Stop (Process R × Config × Option LoadError) :=
  match (initLogging services.logging services.files config envFile).run
    (logHandler services.logging) process with
  | (.ok (), process) => .ok (process, config, configError)
  | (.error (.invalid error), process) =>
    .ok (process, emptyConfig, configError.or (some (.logging error)))
  | (.error (.valueError _), _) => .error .raised

def checkLogging (config : Config) (environ : Environ) : Option LoadError :=
  match checkLoggingConfig services.logging environ config with
  | .ok () => none
  | .error error => some (.logging error)

/-- The root group. -/
def cli (profile : Option String) (setOverrides : List String) (envFile : Option String)
    (process : Process R) : Except Stop (Process R × CLIContext) := do
  let (config, error) ← loadConfig services profile envFile setOverrides
  let (process, config, error) ← startLogging services config error envFile process
  pure (process, ⟨config, profile, setOverrides, envFile, error⟩)

def requireConfig (context : CLIContext) : Except Stop Config :=
  match context.configError with
  | some error => .error (reportLoadFailure error)
  | none => .ok context.config

/-- Python's `if profile`: an empty text is no profile. -/
def given : Option String → Option String
  | some profile => if profile = "" then none else some profile
  | none => none

/-- `_get_effective_profile`. -/
def getEffectiveProfile (context : CLIContext) (profile : Option String) : Option String :=
  (given profile).or context.profile

/-- `_resolve_config`. -/
def resolveConfig (context : CLIContext) (profile : Option String) (process : Process R) :
    Except Stop (Config × Option String) :=
  let effectiveProfile := getEffectiveProfile context profile
  match given profile with
  | none => do
    let config ← requireConfig context
    pure (config, effectiveProfile)
  | some profile => do
    let (config, error) ← loadConfig services (some profile) context.envFile context.setOverrides
    match error.or (checkLogging services config process.environ) with
    | some error => throw (reportLoadFailure error)
    | none => pure (config, effectiveProfile)

/-- A run of `config` in a new process: the profile of the root and the one of the command, and what
is shown. -/
def configCommand (rootProfile profile : Option String) (setOverrides : List String)
    (envFile : Option String) (environ : Environ) : Except Stop (Config × Option String) := do
  let (process, context) ← cli services rootProfile setOverrides envFile
    (newProcess services environ)
  resolveConfig services context profile process

end Services

/-! ## The command line -/

section Lemmas

variable {R : Type} {services : AppServices R}

theorem checkOverrides_of_nest {setOverrides : List String}
    (h : ∃ r, nestOverrides services.loads setOverrides = .ok r) :
    checkOverrides services setOverrides = .ok () := by
  obtain ⟨r, hr⟩ := h
  simp only [checkOverrides, hr]

theorem checkOverrides_of_refused {setOverrides : List String} {e : OverrideError}
    (h : nestOverrides services.loads setOverrides = .error (.valueError e)) :
    checkOverrides services setOverrides = .error (usageError (e.text services.repr)) := by
  simp only [checkOverrides, h]

/-- The profile comes first. -/
theorem checkCommandLine_of_invalid {profile text : String}
    (h : services.validateProfile profile = .error text) (setOverrides : List String) :
    checkCommandLine services (some profile) setOverrides = .error (usageError text) := by
  rw [checkCommandLine, checkProfile, h]
  rfl

theorem checkCommandLine_of_valid {profile : Option String}
    (h : checkProfile services profile = .ok ()) (setOverrides : List String) :
    checkCommandLine services profile setOverrides = checkOverrides services setOverrides := by
  rw [checkCommandLine, h]
  rfl

theorem checkProfile_of_valid {profile : String} (h : services.validateProfile profile = .ok ()) :
    checkProfile services (some profile) = .ok () := by
  rw [checkProfile, h]
  rfl

theorem applyOverrides_of_nest {loads : String → Option Value}
    {merge : Table String Scalar → Table String Scalar → Table String Scalar} {raws : List String}
    {r : Table String Scalar × Finset String} (h : nestOverrides loads raws = .ok r)
    (config : Config) : ∃ result, applyOverrides loads merge config raws = .ok result := by
  unfold applyOverrides
  split
  · exact ⟨config, rfl⟩
  · rw [h]
    exact ⟨_, rfl⟩

/-- A command line that is refused is refused by the load. -/
theorem loadConfig_of_refused {profile : Option String} {setOverrides : List String} {stop : Stop}
    (h : checkCommandLine services profile setOverrides = .error stop) (envFile : Option String) :
    loadConfig services profile envFile setOverrides = .error stop := by
  rw [loadConfig, h]
  rfl

/-- One that is accepted is loaded, or the failure recorded. -/
theorem exists_loadConfig {profile : Option String} {setOverrides : List String}
    (h : checkProfile services profile = .ok ())
    (hset : ∃ r, nestOverrides services.loads setOverrides = .ok r) (envFile : Option String) :
    ∃ loaded, loadConfig services profile envFile setOverrides = .ok loaded := by
  rw [loadConfig, checkCommandLine_of_valid h, checkOverrides_of_nest hset]
  cases hget : services.getConfig profile envFile with
  | error text => exact ⟨_, rfl⟩
  | ok config =>
    obtain ⟨r, hr⟩ := hset
    obtain ⟨result, hresult⟩ := @applyOverrides_of_nest _ services.withOverrides _ _ hr config
    refine ⟨(result, none), ?_⟩
    change (match applyOverrides services.loads services.withOverrides config setOverrides with
      | .ok config => _
      | .error _ => _) = _
    rw [hresult]
    rfl

/-! ## The root and the reload -/

/-- What a configuration that was loaded comes to, once its logging settings are judged. -/
def settled (services : AppServices R) (environ : Environ) :
    Config × Option LoadError → Except Stop Config
  | (config, error) =>
    match error.or (checkLogging services config environ) with
    | some error => .error (reportLoadFailure error)
    | none => .ok config

/-- Starting logging in a new process records what judging the settings says, unless the load has
failed, and keeps a configuration that nothing is recorded against. -/
theorem exists_startLogging (hlib : services.logging.Lawful) (config : Config)
    (error : Option LoadError) {envFile : Option String} {environ : Environ}
    (hfit : LinesFit services.files envFile (newProcess services environ)) :
    ∃ process kept, startLogging services config error envFile (newProcess services environ) =
        .ok (process, kept, error.or (checkLogging services config process.environ)) ∧
      process.environ = loadedEnviron services.files envFile environ ∧
      (checkLogging services config process.environ = none → kept = config) := by
  have hend := initLogging_end hlib.toStartsDefaults services.files config envFile
    (newProcess services environ) rfl
  unfold startLogging
  generalize (initLogging services.logging services.files config envFile).run
    (logHandler services.logging) (newProcess services environ) = r at hend ⊢
  cases hend with
  | stopped hno => exact absurd hfit hno
  | @started settings _ hjudged =>
    have hcheck : checkLogging services config (loadedEnviron services.files envFile environ) =
        none := by
      rw [checkLogging, hlib.checkLoggingConfig_eq]
      change judged _ (loadedEnviron services.files envFile environ) _ = _ at hjudged
      rw [hjudged]
    refine ⟨⟨loadedEnviron services.files envFile environ, services.unencodable,
      some (loadedEnviron services.files envFile environ, settings)⟩, config, ?_, rfl,
      fun _ => rfl⟩
    dsimp only
    rw [hcheck, Option.or_none]
    rfl
  | @invalid refusal seen settings _ hjudged _ =>
    have hcheck : checkLogging services config (loadedEnviron services.files envFile environ) =
        some (.logging ⟨problems refusal⟩) := by
      rw [checkLogging, hlib.checkLoggingConfig_eq]
      change judged _ (loadedEnviron services.files envFile environ) _ = _ at hjudged
      rw [hjudged]
    refine ⟨⟨loadedEnviron services.files envFile environ, services.unencodable,
      some (seen, settings)⟩, emptyConfig, ?_, rfl, fun hnone => ?_⟩
    · dsimp only
      rw [hcheck]
      rfl
    · exact absurd (hcheck.symm.trans hnone) (by simp)

/-- A line of the file that cannot be set stops the start, whatever has been loaded. -/
theorem startLogging_of_not_fit (hlib : services.logging.StartsDefaults) (config : Config)
    (error : Option LoadError) {envFile : Option String} {environ : Environ}
    (hfit : ¬ LinesFit services.files envFile (newProcess services environ)) :
    startLogging services config error envFile (newProcess services environ) = .error .raised := by
  have hend := initLogging_end hlib services.files config envFile
    (newProcess services environ) rfl
  unfold startLogging
  generalize (initLogging services.logging services.files config envFile).run
    (logHandler services.logging) (newProcess services environ) = r at hend ⊢
  cases hend with
  | stopped _ => rfl
  | started hno _ => exact absurd hno hfit
  | invalid hno _ _ => exact absurd hno hfit

/-- The root in a new process: it keeps the profile and the rest of the command line, and what it
recorded is what the configuration comes to. -/
theorem cli_of_loaded (hlib : services.logging.Lawful) {profile : Option String}
    {setOverrides : List String} {envFile : Option String} {loaded : Config × Option LoadError}
    (h : loadConfig services profile envFile setOverrides = .ok loaded) {environ : Environ}
    (hfit : LinesFit services.files envFile (newProcess services environ)) :
    ∃ process context,
      cli services profile setOverrides envFile (newProcess services environ) =
        .ok (process, context) ∧
      process.environ = loadedEnviron services.files envFile environ ∧
      context.profile = profile ∧ context.setOverrides = setOverrides ∧
      context.envFile = envFile ∧
      requireConfig context = settled services process.environ loaded := by
  obtain ⟨config, error⟩ := loaded
  obtain ⟨process, kept, hstart, henviron, hkept⟩ := exists_startLogging hlib config error hfit
  refine ⟨process, ⟨kept, profile, setOverrides, envFile,
    error.or (checkLogging services config process.environ)⟩, ?_, henviron, rfl, rfl, rfl, ?_⟩
  · rw [cli, h]
    change startLogging services config error envFile _ >>= _ = _
    rw [hstart]
    rfl
  · unfold requireConfig settled
    cases herror : error.or (checkLogging services config process.environ) with
    | some error => simp [herror]
    | none => simp [herror, hkept (Option.or_eq_none_iff.mp herror).2]

theorem cli_of_not_fit (hlib : services.logging.StartsDefaults) {profile : Option String}
    {setOverrides : List String} {envFile : Option String} {loaded : Config × Option LoadError}
    (h : loadConfig services profile envFile setOverrides = .ok loaded) {environ : Environ}
    (hfit : ¬ LinesFit services.files envFile (newProcess services environ)) :
    cli services profile setOverrides envFile (newProcess services environ) = .error .raised := by
  rw [cli, h]
  change startLogging services loaded.1 loaded.2 envFile _ >>= _ = _
  rw [startLogging_of_not_fit hlib _ _ hfit]
  rfl

/-- The command stops where the root stops. -/
theorem configCommand_of_refused {rootProfile : Option String} {setOverrides : List String}
    {stop : Stop} (h : checkCommandLine services rootProfile setOverrides = .error stop)
    (profile envFile : Option String) (environ : Environ) :
    configCommand services rootProfile profile setOverrides envFile environ = .error stop := by
  rw [configCommand, cli, loadConfig_of_refused h]
  rfl

theorem configCommand_of_cli {rootProfile : Option String} {setOverrides : List String}
    {envFile : Option String} {environ : Environ} {process : Process R} {context : CLIContext}
    (h : cli services rootProfile setOverrides envFile (newProcess services environ) =
      .ok (process, context))
    (profile : Option String) :
    configCommand services rootProfile profile setOverrides envFile environ =
      resolveConfig services context profile process := by
  rw [configCommand, h]
  rfl

/-- A command that names a profile does not look at what the root has loaded. -/
theorem resolveConfig_of_given {profile : String} (hne : profile ≠ "") (context : CLIContext)
    (process : Process R) :
    resolveConfig services context (some profile) process = (do
      let loaded ← loadConfig services (some profile) context.envFile context.setOverrides
      let config ← settled services process.environ loaded
      pure (config, some profile)) := by
  have hgiven : given (some profile) = some profile := if_neg hne
  rw [resolveConfig, getEffectiveProfile, hgiven]
  change (do
    let (config, error) ← loadConfig services (some profile) context.envFile context.setOverrides
    match error.or (checkLogging services config process.environ) with
    | some error => throw (reportLoadFailure error)
    | none => pure (config, some profile)) = _
  cases loadConfig services (some profile) context.envFile context.setOverrides with
  | error stop => rfl
  | ok loaded =>
    obtain ⟨config, error⟩ := loaded
    change (match error.or (checkLogging services config process.environ) with
      | some error => _
      | none => _) = settled services process.environ (config, error) >>= _
    simp only [settled]
    cases error.or (checkLogging services config process.environ) <;> rfl

/-- One that names none shows what the root has loaded. -/
theorem resolveConfig_of_not_given {profile : Option String} (hno : given profile = none)
    (context : CLIContext) (process : Process R) :
    resolveConfig services context profile process = (do
      let config ← requireConfig context
      pure (config, context.profile)) := by
  rw [resolveConfig, getEffectiveProfile, hno]
  rfl

end Lemmas

end SrvBackup.Adapters
