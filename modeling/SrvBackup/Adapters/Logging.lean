import SrvBackup.Adapters.Config
import SrvBackup.Effects.Program
import SrvBackup.Storage.Path
import Mathlib.Data.List.AList

/-!
# Logging settings

`initLogging` starts the logging library once in a process, from the section `lib_log_rich` and the
`LOG_*` variables; `checkLoggingConfig` only judges them. The library is a parameter, and with it
the type `R` of its settings and what its functions refuse.
-/
namespace SrvBackup.Adapters

open SrvBackup.Effects SrvBackup.Storage SrvBackup.Text

/-! ## Errors of the library -/

/-- The text of an error that has one. -/
structure Message where
  text : String
  text_ne : text ≠ ""

/-- `str(error).splitlines()[0]`. -/
def Message.firstLine (message : Message) : String :=
  (splitlines message.text).head (splitlines_ne_nil message.text_ne)

/-- A `ValueError` with the errors it was raised from. A `ValidationError` has items, each with the
place and the reason. -/
inductive LogError where
  | validation (message : Message) (items : List (List String × String))
  | bare (message : Message)
  | caused (message : Message) (cause : LogError)

namespace LogError

def message : LogError → Message
  | validation message _ | bare message | caused message _ => message

/-- The items of the first `ValidationError` in the chain. -/
def items? : LogError → Option (List (List String × String))
  | validation _ items => some items
  | bare _ => none
  | caused _ cause => cause.items?

end LogError

/-- `_problem_key`. -/
def problemKey (loc : List String) : String := ".".intercalate ("lib_log_rich" :: loc)

/-- `_problems`. -/
def problems (error : LogError) : List String :=
  match error.items? with
  | some items => items.map fun item => problemKey item.1 ++ ": " ++ item.2
  | none => ["lib_log_rich: " ++ error.message.firstLine]

structure InvalidLoggingConfigError where
  problems : List String

/-- What a function of the module raises. -/
inductive LogStop where
  | valueError (error : LogError)
  | invalid (error : InvalidLoggingConfigError)

/-! ## The process -/

abbrev Environ := String → Option String

/-- A name that begins with `_LOG_VARIABLE_PREFIX`. -/
def IsLogVariable (name : String) : Prop := "LOG_".toList <+: name.toList

instance : DecidablePred IsLogVariable := fun name => by unfold IsLogVariable; infer_instance

/-- What `log_variables_hidden` takes out of the environment. -/
def Environ.logVariables (environ : Environ) : Environ :=
  fun name => if IsLogVariable name then environ name else none

/-- What it leaves there. -/
def Environ.withoutLogVariables (environ : Environ) : Environ :=
  fun name => if IsLogVariable name then none else environ name

/-- `os.environ.update`. -/
def Environ.update (environ hidden : Environ) : Environ :=
  fun name => (hidden name).or (environ name)

/-- What a process keeps: its environment, what the encoding of file names says of a text that it
does not take, and the running library, with the environment and the settings it was started
with. -/
structure Process (R : Type) where
  environ : Environ
  unencodable : String → Option Message
  runtime : Option (Environ × R)

/-- Why a variable cannot be set. -/
def Process.refusal {R : Type} (process : Process R) (name value : String) : Option Message :=
  ((process.unencodable name).or (process.unencodable value)).or
    (if '\x00' ∈ name.toList ∨ '\x00' ∈ value.toList then
      some ⟨"embedded null byte", by decide⟩
    else if '=' ∈ name.toList then some ⟨"illegal environment variable name", by decide⟩
    else none)

/-- What the module asks of the process and the library. -/
inductive LogOp (R : Type) where
  | isInitialised
  | environ
  | setItem (name value : String)
  /-- takes the `LOG_*` variables out -/
  | hide
  | update (hidden : Environ)
  | init (settings : R)

@[reducible] def LogOp.Answer {R : Type} : LogOp R → Type
  | isInitialised => Bool
  | environ | hide => Environ
  | setItem _ _ | init _ => Except LogError Unit
  | update _ => Unit

def LogSys (R : Type) : Signature := ⟨LogOp R, LogOp.Answer⟩

abbrev LogProg (R α : Type) := Program (LogSys R) LogStop α

/-! ## Variables of a file -/

/-- The entries of a dict; a name can stand without a value. -/
abbrev DotenvValues := AList fun _ : String => Option String

/-- The files that `.env` is looked for among, with `none` for an `OSError`. -/
structure DotenvFiles where
  /-- the working directory and its parents -/
  directories : Option (List Path)
  isFile : Path → Option Bool
  present : Path → Option Bool
  /-- `dotenv_values`, which also reads the environment -/
  dotenvValues : Path → Environ → Option DotenvValues

/-- `_PROJECT_MARKERS`. -/
def projectMarkers : List String := ["pyproject.toml", ".git"]

/-- `_dotenv_in`: the file in the directory, and whether the search stops there. -/
def dotenvIn (files : DotenvFiles) (directory : Path) : Option Path × Bool :=
  let found : Option (Option Path × Bool) := do
    let candidate := directory / ".env"
    if ← files.isFile candidate then pure (some candidate, true)
    else
      let stop ← projectMarkers.anyM fun marker => files.present (directory / marker)
      pure (none, stop)
  found.getD (none, false)

def searchDotenv (files : DotenvFiles) : List Path → Option Path
  | [] => none
  | directory :: parents =>
    match dotenvIn files directory with
    | (some found, _) => some found
    | (none, true) => none
    | (none, false) => searchDotenv files parents

/-- `_nearest_dotenv`. -/
def nearestDotenv (files : DotenvFiles) : Option Path :=
  files.directories.bind (searchDotenv files)

section Load

variable {R : Type}

def raiseValueError : Except LogError Unit → LogProg R Unit
  | .ok () => .ret ()
  | .error error => .raise (.valueError error)

def isInitialised : LogProg R Bool := .op (E := LogSys R) .isInitialised .ret

/-- `os.environ[name] = value`. -/
def setItem (name value : String) : LogProg R Unit :=
  .op (E := LogSys R) (.setItem name value) raiseValueError

/-- `os.environ`. -/
def readEnviron : LogProg R Environ := .op (E := LogSys R) .environ .ret

/-- `os.environ.setdefault`. -/
def setdefault (name value : String) : LogProg R Unit := do
  match (← readEnviron) name with
  | some _ => pure ()
  | none => setItem name value

/-- One line of the file. -/
def takeLogVariable (entry : (_ : String) × Option String) : LogProg R Unit :=
  match entry with
  | ⟨name, some value⟩ => if IsLogVariable name then setdefault name value else .ret ()
  | ⟨_, none⟩ => .ret ()

/-- The file that the variables are taken from. -/
def dotenvFile (files : DotenvFiles) (dotenvPath : Option String) : Option Path :=
  match dotenvPath with
  | some path => some (Path.ofString path)
  | none => nearestDotenv files

/-- `_load_log_variables`. -/
def loadLogVariables (files : DotenvFiles) (dotenvPath : Option String) : LogProg R Unit :=
  match dotenvFile files dotenvPath with
  | none => pure ()
  | some path => do
    match files.dotenvValues path (← readEnviron) with
    | none => pure ()
    | some values => Program.forEach values.entries takeLogVariable

/-- The block runs without the `LOG_*` variables, and they come back however it ends. -/
def logVariablesHidden {α : Type} (block : LogProg R α) : LogProg R α := do
  let hidden ← .op (E := LogSys R) .hide .ret
  block.finallyDo (.op (E := LogSys R) (.update hidden) .ret)

end Load

/-! ## The library -/

structure LoggingConfigModel where
  service : Option String := none
  environment : String := "prod"
  extra : Table String Scalar := []

/-- What is used of the logging library and of the check of the section's types. -/
structure LogLibrary (R : Type) where
  modelValidate : Value → Except LogError LoggingConfigModel
  runtimeConfig (service environment : String) (extra : Table String Scalar) : Except LogError R
  init : Environ → R → Except LogError Unit
  validateConfig : Environ → R → Except LogError Unit

/-- Python's truth of a value. -/
def truthy : Value → Bool
  | .table es => !es.isEmpty
  | .leaf .null => false
  | .leaf (.bool b) => b
  | .leaf (.int i) => i ≠ 0
  | .leaf (.float x) => x ≠ 0
  | .leaf (.str s) => s ≠ ""
  | .leaf (.list items) => !items.isEmpty

def isNull : Value → Bool
  | .leaf .null => true
  | _ => false

/-- `__init__conf__.name`. -/
def packageName : String := "proxmox_srvbackup"

/-- `Config({}, {})`. -/
def emptyConfig : Config := ⟨[], ∅⟩

section Library

variable {R : Type} (lib : LogLibrary R)

/-- `_build_runtime_config`. -/
def buildRuntimeConfig (config : Config) : Except LogError R := do
  let logRaw := (config.data.lookup "lib_log_rich").getD (.table [])
  let parsed ← lib.modelValidate (if truthy logRaw then logRaw else .table [])
  let service := parsed.service.getD ""
  lib.runtimeConfig (if service = "" then packageName else service) parsed.environment
    (parsed.extra.filter fun entry => !isNull entry.2)

/-- `init(_build_runtime_config(config))`. -/
def startRuntime (config : Config) : LogProg R Unit :=
  match buildRuntimeConfig lib config with
  | .ok settings => .op (E := LogSys R) (.init settings) raiseValueError
  | .error error => .raise (.valueError error)

/-- `try: p except ValueError as error: f error`. -/
def exceptValueError (p : LogProg R Unit) (f : LogError → LogProg R Unit) : LogProg R Unit :=
  p.handle fun
    | .valueError error => f error
    | stop => .raise stop

/-- `_start_default_logging`. -/
def startDefaultLogging : LogProg R Unit :=
  exceptValueError (startRuntime lib emptyConfig) fun _ =>
    logVariablesHidden (startRuntime lib emptyConfig)

def initLogging (files : DotenvFiles) (config : Config) (dotenvPath : Option String) :
    LogProg R Unit := do
  if ← isInitialised then pure ()
  else do
    loadLogVariables files dotenvPath
    exceptValueError (startRuntime lib config) fun error => do
      startDefaultLogging lib
      .raise (.invalid ⟨problems error⟩)

def checkLoggingConfig (environ : Environ) (config : Config) :
    Except InvalidLoggingConfigError Unit :=
  (do lib.validateConfig environ (← buildRuntimeConfig lib config)).mapError fun error =>
    ⟨problems error⟩

/-- What the operations do in a process. -/
def logHandler : Handler (LogSys R) (Process R)
  | .isInitialised, process => (process.runtime.isSome, process)
  | .environ, process => (process.environ, process)
  | .setItem name value, process =>
    match process.refusal name value with
    | some message => (.error (.bare message), process)
    | none =>
      (.ok (), { process with environ := Function.update process.environ name (some value) })
  | .hide, process =>
    (process.environ.logVariables,
      { process with environ := process.environ.withoutLogVariables })
  | .update hidden, process =>
    ((), { process with environ := process.environ.update hidden })
  | .init settings, process =>
    match lib.init process.environ settings with
    | .error error => (.error error, process)
    | .ok () => (.ok (), { process with runtime := some (process.environ, settings) })

/-- What the library promises of its defaults: they start when no `LOG_*` variable is set. -/
structure LogLibrary.StartsDefaults : Prop where
  modelValidate_empty : lib.modelValidate (.table []) = .ok {}
  starts : ∀ environ, (∀ name, IsLogVariable name → environ name = none) →
    ∃ settings, lib.runtimeConfig packageName "prod" [] = .ok settings ∧
      lib.init environ settings = .ok ()

/-- Besides, `validate_config` refuses what `init` refuses. -/
structure LogLibrary.Lawful : Prop extends lib.StartsDefaults where
  validateConfig_eq : ∀ environ settings, lib.validateConfig environ settings =
    lib.init environ settings

/-! ## Runs of the operations -/

variable {lib}

theorem run_isInitialised (process : Process R) :
    (isInitialised (R := R)).run (logHandler lib) process =
      (.ok process.runtime.isSome, process) := rfl

theorem run_readEnviron (process : Process R) :
    (readEnviron (R := R)).run (logHandler lib) process = (.ok process.environ, process) := rfl

theorem run_setItem (name value : String) (process : Process R) :
    (setItem name value).run (logHandler lib) process =
      match process.refusal name value with
      | some message => (.error (.valueError (.bare message)), process)
      | none =>
        (.ok (),
          { process with environ := Function.update process.environ name (some value) }) := by
  change (raiseValueError (logHandler lib (.setItem name value) process).1).run (logHandler lib)
    (logHandler lib (.setItem name value) process).2 = _
  rw [logHandler]
  cases process.refusal name value <;> rfl

theorem run_setdefault (name value : String) (process : Process R) :
    (setdefault name value).run (logHandler lib) process =
      match process.environ name with
      | some _ => (.ok (), process)
      | none => (setItem name value).run (logHandler lib) process := by
  rw [setdefault, Program.bind_eq, Program.run_bind_ok (run_readEnviron process)]
  cases process.environ name <;> rfl

theorem run_exceptValueError (p : LogProg R Unit) (f : LogError → LogProg R Unit)
    (process : Process R) :
    (exceptValueError p f).run (logHandler lib) process =
      match p.run (logHandler lib) process with
      | (.error (.valueError error), after) => (f error).run (logHandler lib) after
      | result => result := by
  rw [exceptValueError, Program.run_handle]
  rcases p.run (logHandler lib) process with ⟨(_ | _) | _, after⟩ <;> rfl

/-- Whatever the block comes to, the variables are back afterwards. -/
theorem run_logVariablesHidden {α : Type} (block : LogProg R α) (process : Process R) :
    (logVariablesHidden block).run (logHandler lib) process =
      let result := block.run (logHandler lib)
        { process with environ := process.environ.withoutLogVariables }
      (result.1, { result.2 with
        environ := result.2.environ.update process.environ.logVariables }) := by
  rw [logVariablesHidden, Program.bind_eq]
  change (block.finallyDo _).run (logHandler lib) _ = _
  rw [Program.run_finallyDo]
  rfl

theorem update_withoutLogVariables (environ : Environ) :
    environ.withoutLogVariables.update environ.logVariables = environ := by
  funext name
  by_cases hname : IsLogVariable name <;>
    simp [Environ.update, Environ.withoutLogVariables, Environ.logVariables, hname]

/-- What a start with a configuration comes to: the settings, or why the library refuses them. -/
def judged (lib : LogLibrary R) (environ : Environ) (config : Config) : Except LogError R := do
  let settings ← buildRuntimeConfig lib config
  lib.init environ settings
  pure settings

/-- A start runs the library with the settings, or leaves the process alone. -/
theorem run_startRuntime (config : Config) (process : Process R) :
    (startRuntime lib config).run (logHandler lib) process =
      match judged lib process.environ config with
      | .ok settings => (.ok (), { process with runtime := some (process.environ, settings) })
      | .error error => (.error (.valueError error), process) := by
  unfold startRuntime judged
  cases buildRuntimeConfig lib config with
  | error error => rfl
  | ok settings =>
    change (raiseValueError (logHandler lib (.init settings) process).1).run (logHandler lib)
      (logHandler lib (.init settings) process).2 = _
    rw [logHandler]
    change _ = match (do lib.init process.environ settings; pure settings) with
      | .ok settings => _
      | .error error => _
    cases lib.init process.environ settings <;> rfl

end Library

/-! ## Variables that a file adds -/

/-- The environment with the `LOG_*` entries whose names are not set. -/
def Environ.extended (environ : Environ) (entries : List ((_ : String) × Option String)) :
    Environ :=
  fun name => (environ name).or (if IsLogVariable name then (entries.dlookup name).join else none)

/-- No entry that is to be set is refused. -/
def Process.Takes {R : Type} (process : Process R)
    (entries : List ((_ : String) × Option String)) : Prop :=
  ∀ name value, ⟨name, some value⟩ ∈ entries → IsLogVariable name →
    process.environ name = none → process.refusal name value = none

section Entries

variable {R : Type} {lib : LogLibrary R}
  {entries : List ((_ : String) × Option String)}

@[simp] theorem extended_nil (environ : Environ) : environ.extended [] = environ := by
  funext name
  simp [Environ.extended]

theorem extended_singleton (environ : Environ) (key : String) (value : Option String)
    (name : String) : environ.extended [⟨key, value⟩] name =
      (environ name).or (if name = key ∧ IsLogVariable key then value else none) := by
  by_cases hname : name = key
  · subst hname
    simp [Environ.extended]
  · simp [Environ.extended, hname]

/-- A further entry counts for its own name. -/
theorem extended_cons {key : String} {value : Option String} (hkey : key ∉ entries.keys)
    (environ : Environ) :
    environ.extended (⟨key, value⟩ :: entries) =
      (environ.extended [⟨key, value⟩]).extended entries := by
  funext name
  by_cases hname : name = key
  · subst hname
    have hnone : entries.dlookup name = none := List.dlookup_eq_none.mpr hkey
    simp [Environ.extended, hnone]
  · simp [Environ.extended, hname]

theorem takes_cons_iff {key : String} {value : Option String} (hkey : key ∉ entries.keys)
    (process : Process R) :
    process.Takes (⟨key, value⟩ :: entries) ↔ process.Takes [⟨key, value⟩] ∧
      { process with environ := process.environ.extended [⟨key, value⟩] }.Takes entries := by
  have hsame : ∀ name text, ⟨name, some text⟩ ∈ entries →
      process.environ.extended [⟨key, value⟩] name = process.environ name := by
    intro name text hmem
    have hname : name ≠ key := by
      rintro rfl
      exact hkey (List.mem_keys_of_mem hmem)
    simp [extended_singleton, hname]
  constructor
  · intro h
    refine ⟨fun name text hmem => ?_, fun name text hmem hlog hnone => ?_⟩
    · exact h name text (List.mem_cons.mpr (.inl (List.mem_singleton.mp hmem)))
    · exact h name text (List.mem_cons_of_mem _ hmem) hlog ((hsame name text hmem).symm.trans hnone)
  · rintro ⟨hhead, htail⟩ name text hmem hlog hnone
    rcases List.mem_cons.mp hmem with heq | hmem
    · exact hhead name text (List.mem_singleton.mpr heq) hlog hnone
    · exact htail name text hmem hlog ((hsame name text hmem).trans hnone)

theorem takes_singleton_iff (key : String) (value : Option String) (process : Process R) :
    process.Takes [⟨key, value⟩] ↔ ∀ text, value = some text → IsLogVariable key →
      process.environ key = none → process.refusal key text = none := by
  constructor
  · rintro h text rfl
    exact h key text (List.mem_singleton_self _)
  · intro h name text hmem
    obtain ⟨rfl, heq⟩ : name = key ∧ some text = value := by simpa using hmem
    exact h text heq.symm

/-- A line that is not wanted leaves the environment alone. -/
theorem extended_singleton_of_kept {environ : Environ} {key : String} {value : Option String}
    (h : ∀ text, value = some text → IsLogVariable key → environ key ≠ none) :
    environ.extended [⟨key, value⟩] = environ := by
  funext name
  rw [extended_singleton]
  split
  case isTrue hname =>
    obtain ⟨rfl, hlog⟩ := hname
    cases value with
    | none => simp
    | some text =>
      obtain ⟨old, hold⟩ := Option.ne_none_iff_exists'.mp (h text rfl hlog)
      simp [hold]
  case isFalse => simp

theorem extended_singleton_of_free {environ : Environ} {key text : String}
    (hlog : IsLogVariable key) (hfree : environ key = none) :
    environ.extended [⟨key, some text⟩] = Function.update environ key (some text) := by
  funext name
  rw [extended_singleton]
  by_cases hname : name = key
  · subst hname
    simp [hfree, hlog]
  · simp [hname]

/-- One line of the file is set, left alone, or refused. -/
theorem run_takeLogVariable (key : String) (value : Option String) (process : Process R) :
    (process.Takes [⟨key, value⟩] ∧
      (takeLogVariable ⟨key, value⟩).run (logHandler lib) process =
        (.ok (), { process with environ := process.environ.extended [⟨key, value⟩] })) ∨
    (¬ process.Takes [⟨key, value⟩] ∧ ∃ error,
      (takeLogVariable ⟨key, value⟩).run (logHandler lib) process =
        (.error (.valueError error), process)) := by
  rw [takes_singleton_iff]
  cases value with
  | none =>
    rw [extended_singleton_of_kept (by simp)]
    exact .inl ⟨by simp, rfl⟩
  | some text =>
    by_cases hlog : IsLogVariable key
    case neg =>
      rw [extended_singleton_of_kept fun _ _ h => absurd h hlog, takeLogVariable, if_neg hlog]
      exact .inl ⟨fun _ _ h => absurd h hlog, rfl⟩
    rw [takeLogVariable, if_pos hlog]
    cases hold : process.environ key with
    | some old =>
      rw [extended_singleton_of_kept fun _ _ _ => by simp [hold], run_setdefault, hold]
      exact .inl ⟨by simp, rfl⟩
    | none =>
      rw [run_setdefault, hold]
      dsimp only
      rw [run_setItem]
      cases hrefusal : process.refusal key text with
      | some message => exact .inr ⟨by simp [hlog, hrefusal], .bare message, rfl⟩
      | none =>
        rw [extended_singleton_of_free hlog hold]
        exact .inl ⟨by simp [hrefusal], rfl⟩

theorem run_forEach_takeLogVariable (hkeys : entries.NodupKeys) (process : Process R) :
    (process.Takes entries ∧
      (Program.forEach entries takeLogVariable).run (logHandler lib) process =
        (.ok (), { process with environ := process.environ.extended entries })) ∨
    (¬ process.Takes entries ∧ ∃ error after,
      (Program.forEach entries takeLogVariable).run (logHandler lib) process =
        (.error (.valueError error), after)) := by
  induction entries generalizing process with
  | nil =>
    refine .inl ⟨fun name value h => by simp at h, ?_⟩
    rw [extended_nil]
    rfl
  | cons entry entries ih =>
    obtain ⟨key, value⟩ := entry
    obtain ⟨hkey, hkeys⟩ := List.nodupKeys_cons.mp hkeys
    rw [takes_cons_iff hkey, extended_cons hkey]
    rcases run_takeLogVariable key value process with ⟨htakes, hrun⟩ | ⟨htakes, error, hrun⟩
    · have hrest := ih hkeys { process with environ := process.environ.extended [⟨key, value⟩] }
      rw [Program.forEach, Program.run_bind_ok hrun]
      simpa [htakes] using hrest
    · rw [Program.forEach, Program.run_bind_error hrun]
      exact .inr ⟨fun h => htakes h.1, error, process, rfl⟩

end Entries

/-- What the file holds that the variables are taken from. -/
def dotenvLines (files : DotenvFiles) (dotenvPath : Option String) (environ : Environ) :
    DotenvValues :=
  ((dotenvFile files dotenvPath).bind fun path => files.dotenvValues path environ).getD ∅

/-- The environment with the lines of the file. -/
def loadedEnviron (files : DotenvFiles) (dotenvPath : Option String) (environ : Environ) :
    Environ :=
  environ.extended (dotenvLines files dotenvPath environ).entries

/-- Every line of the file that is to be set can be set. -/
def LinesFit {R : Type} (files : DotenvFiles) (dotenvPath : Option String) (process : Process R) :
    Prop :=
  process.Takes (dotenvLines files dotenvPath process.environ).entries

section Runs

variable {R : Type} {lib : LogLibrary R}

theorem run_loadLogVariables (files : DotenvFiles) (dotenvPath : Option String)
    (process : Process R) :
    (LinesFit files dotenvPath process ∧
      (loadLogVariables files dotenvPath).run (logHandler lib) process =
        (.ok (), { process with environ := loadedEnviron files dotenvPath process.environ })) ∨
    (¬ LinesFit files dotenvPath process ∧ ∃ error after,
      (loadLogVariables files dotenvPath).run (logHandler lib) process =
        (.error (.valueError error), after)) := by
  have hnothing : dotenvLines files dotenvPath process.environ = ∅ →
      LinesFit files dotenvPath process ∧
        { process with environ := loadedEnviron files dotenvPath process.environ } = process := by
    intro h
    rw [LinesFit, loadedEnviron, h]
    exact ⟨fun name value hmem => by simp at hmem, by simp⟩
  unfold loadLogVariables
  cases hpath : dotenvFile files dotenvPath with
  | none =>
    obtain ⟨hfit, hsame⟩ := hnothing (by rw [dotenvLines, hpath]; rfl)
    rw [hsame]
    exact .inl ⟨hfit, rfl⟩
  | some path =>
    simp only [Program.bind_eq, Program.run_bind_ok (run_readEnviron process)]
    cases hvalues : files.dotenvValues path process.environ with
    | none =>
      obtain ⟨hfit, hsame⟩ := hnothing (by rw [dotenvLines, hpath, Option.bind_some, hvalues]; rfl)
      rw [hsame]
      exact .inl ⟨hfit, rfl⟩
    | some values =>
      have hlines : dotenvLines files dotenvPath process.environ = values := by
        rw [dotenvLines, hpath, Option.bind_some, hvalues, Option.getD_some]
      rw [LinesFit, loadedEnviron, hlines]
      exact run_forEach_takeLogVariable values.nodupKeys process

/-! ## Starting and judging -/

/-- What the library sees that runs with the defaults: the whole environment, or the environment
without the `LOG_*` variables if the defaults are refused with them. -/
inductive FallbackSees (lib : LogLibrary R) (environ : Environ) : Environ → R → Prop
  | whole {settings} : judged lib environ emptyConfig = .ok settings →
      FallbackSees lib environ environ settings
  | hidden {error settings} : judged lib environ emptyConfig = .error error →
      judged lib environ.withoutLogVariables emptyConfig = .ok settings →
      FallbackSees lib environ environ.withoutLogVariables settings

theorem LogLibrary.StartsDefaults.judged_eq (hlib : lib.StartsDefaults) (environ : Environ) :
    ∃ settings, judged lib environ.withoutLogVariables emptyConfig = .ok settings := by
  obtain ⟨settings, hsettings, hinit⟩ := hlib.starts environ.withoutLogVariables
    fun name hname => if_pos hname
  have hbuild : buildRuntimeConfig lib emptyConfig = .ok settings := by
    change (do
      let parsed ← lib.modelValidate (.table [])
      _) = _
    rw [hlib.modelValidate_empty]
    exact hsettings
  refine ⟨settings, ?_⟩
  rw [judged, hbuild]
  change (do lib.init environ.withoutLogVariables settings; pure settings) = _
  rw [hinit]
  rfl

/-- The defaults start, and the environment is left as it was. -/
theorem run_startDefaultLogging (hlib : lib.StartsDefaults) (process : Process R) :
    ∃ seen settings, FallbackSees lib process.environ seen settings ∧
      (startDefaultLogging lib).run (logHandler lib) process =
        (.ok (), { process with runtime := some (seen, settings) }) := by
  rw [startDefaultLogging, run_exceptValueError, run_startRuntime]
  cases hwhole : judged lib process.environ emptyConfig with
  | ok settings => exact ⟨_, settings, .whole hwhole, rfl⟩
  | error error =>
    obtain ⟨settings, hsettings⟩ := hlib.judged_eq process.environ
    refine ⟨_, settings, .hidden hwhole hsettings, ?_⟩
    simp only [run_logVariablesHidden, run_startRuntime, hsettings, update_withoutLogVariables]

/-- How `initLogging` ends in a process in which logging is not running: a line of the file that
cannot be set stops it; otherwise the library runs, with the configuration or with the defaults. -/
inductive LoggingEnd (lib : LogLibrary R) (files : DotenvFiles) (config : Config)
    (dotenvPath : Option String) (process : Process R) : Except LogStop Unit × Process R → Prop
  | stopped {error after} : ¬ LinesFit files dotenvPath process →
      LoggingEnd lib files config dotenvPath process (.error (.valueError error), after)
  | started {settings} : LinesFit files dotenvPath process →
      judged lib (loadedEnviron files dotenvPath process.environ) config = .ok settings →
      LoggingEnd lib files config dotenvPath process (.ok (),
        { process with
          environ := loadedEnviron files dotenvPath process.environ
          runtime := some (loadedEnviron files dotenvPath process.environ, settings) })
  | invalid {error seen settings} : LinesFit files dotenvPath process →
      judged lib (loadedEnviron files dotenvPath process.environ) config = .error error →
      FallbackSees lib (loadedEnviron files dotenvPath process.environ) seen settings →
      LoggingEnd lib files config dotenvPath process (.error (.invalid ⟨problems error⟩),
        { process with
          environ := loadedEnviron files dotenvPath process.environ
          runtime := some (seen, settings) })

theorem initLogging_end (hlib : lib.StartsDefaults) (files : DotenvFiles) (config : Config)
    (dotenvPath : Option String) (process : Process R) (hstopped : process.runtime = none) :
    LoggingEnd lib files config dotenvPath process
      ((initLogging lib files config dotenvPath).run (logHandler lib) process) := by
  rw [initLogging, Program.bind_eq, Program.run_bind_ok (run_isInitialised process), hstopped]
  simp only [Option.isSome_none, Bool.false_eq_true, if_false, Program.bind_eq]
  rcases run_loadLogVariables files dotenvPath process with
    ⟨hfit, hload⟩ | ⟨hfit, error, after, hload⟩
  · rw [Program.run_bind_ok hload, run_exceptValueError, run_startRuntime]
    dsimp only
    cases hjudged : judged lib (loadedEnviron files dotenvPath process.environ) config with
    | ok settings => exact .started hfit hjudged
    | error error =>
      obtain ⟨seen, settings, hsees, hdefault⟩ := run_startDefaultLogging hlib
        { process with environ := loadedEnviron files dotenvPath process.environ }
      simp only [Program.run_bind_ok hdefault]
      exact .invalid hfit hjudged hsees
  · rw [Program.run_bind_error hload]
    exact .stopped hfit

/-- Judging the settings refuses what a start with them refuses, in the same words. -/
theorem LogLibrary.Lawful.checkLoggingConfig_eq (hlib : lib.Lawful) (environ : Environ)
    (config : Config) :
    checkLoggingConfig lib environ config = match judged lib environ config with
      | .ok _ => .ok ()
      | .error error => .error ⟨problems error⟩ := by
  unfold checkLoggingConfig judged
  cases buildRuntimeConfig lib config with
  | error error => rfl
  | ok settings =>
    change (lib.validateConfig environ settings).mapError _ =
      match (do lib.init environ settings; pure settings) with
      | .ok _ => _
      | .error error => _
    rw [hlib.validateConfig_eq]
    cases lib.init environ settings <;> rfl

end Runs

end SrvBackup.Adapters
