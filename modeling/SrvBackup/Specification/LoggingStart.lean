import SrvBackup.Adapters.Logging

/-!
# How logging starts

A start leaves the library running, with the configuration or with the defaults, and adds to the
environment the `LOG_*` lines of one file. It does so unless one of these lines cannot be set.
-/
namespace SrvBackup.Specification

open SrvBackup.Effects SrvBackup.Storage SrvBackup.Adapters

/-! ## The file -/

def HasDotenv (files : DotenvFiles) (directory : Path) : Prop :=
  files.isFile (directory / ".env") = some true

/-- The directory is seen to be the root of a project. -/
def IsProjectRoot (files : DotenvFiles) (directory : Path) : Prop :=
  files.isFile (directory / ".env") = some false ∧
    (files.present (directory / "pyproject.toml") = some true ∨
      files.present (directory / "pyproject.toml") = some false ∧
        files.present (directory / ".git") = some true)

/-- The file that is given, else the first one from the working directory upwards that does not lie
above the root of a project; a directory that cannot be read is passed over. -/
inductive Consulted (files : DotenvFiles) : Option String → Path → Prop
  | given {path} : Consulted files (some path) (Path.ofString path)
  | nearest {below directory above} :
      files.directories = some (below ++ directory :: above) → HasDotenv files directory →
      (∀ d ∈ below, ¬ HasDotenv files d ∧ ¬ IsProjectRoot files d) →
      Consulted files none (directory / ".env")

/-- The file gives a value to a `LOG_*` variable that is not set. -/
def Adds (files : DotenvFiles) (dotenvPath : Option String) (environ : Environ)
    (name value : String) : Prop :=
  IsLogVariable name ∧ environ name = none ∧
    ∃ path values, Consulted files dotenvPath path ∧
      files.dotenvValues path environ = some values ∧ values.lookup name = some (some value)

section Search

variable {files : DotenvFiles}

theorem dotenvIn_of_hasDotenv {directory : Path} (h : HasDotenv files directory) :
    dotenvIn files directory = (some (directory / ".env"), true) := by
  have h : files.isFile (directory / ".env") = some true := h
  simp [dotenvIn, h]

/-- Without the file the search stops at the root of a project only. -/
theorem dotenvIn_of_not_hasDotenv {directory : Path} (h : ¬ HasDotenv files directory) :
    ∃ stop, dotenvIn files directory = (none, stop) ∧ (stop ↔ IsProjectRoot files directory) := by
  unfold IsProjectRoot
  unfold HasDotenv at h
  cases hfile : files.isFile (directory / ".env") with
  | none => exact ⟨false, by simp [dotenvIn, hfile], by simp⟩
  | some there =>
    obtain rfl : there = false := by
      rw [hfile] at h
      simpa using h
    cases hproject : files.present (directory / "pyproject.toml") with
    | none => exact ⟨false, by simp [dotenvIn, projectMarkers, hfile, hproject], by simp⟩
    | some project =>
      cases project with
      | true => exact ⟨true, by simp [dotenvIn, projectMarkers, hfile, hproject], by simp⟩
      | false =>
        cases hgit : files.present (directory / ".git") with
        | none => exact ⟨false, by simp [dotenvIn, projectMarkers, hfile, hproject, hgit], by simp⟩
        | some git =>
          refine ⟨git, ?_, by simp⟩
          cases git <;> simp [dotenvIn, projectMarkers, hfile, hproject, hgit]

/-- The first element with a property is the head, or it is looked for in the tail. -/
theorem exists_first_cons_iff {α : Type*} {P Q R : α → Prop} {x : α} {xs : List α} :
    (∃ before y after, x :: xs = before ++ y :: after ∧ P y ∧ (∀ z ∈ before, Q z) ∧ R y) ↔
      (P x ∧ R x) ∨
        (Q x ∧ ∃ before y after, xs = before ++ y :: after ∧ P y ∧ (∀ z ∈ before, Q z) ∧ R y) := by
  constructor
  · rintro ⟨before, y, after, hxs, hy, hbefore, hry⟩
    cases before with
    | nil =>
      obtain ⟨rfl, -⟩ := List.cons.inj hxs
      exact .inl ⟨hy, hry⟩
    | cons z before =>
      obtain ⟨rfl, rfl⟩ := List.cons.inj hxs
      obtain ⟨hx, hbefore⟩ := List.forall_mem_cons.mp hbefore
      exact .inr ⟨hx, before, y, after, rfl, hy, hbefore, hry⟩
  · rintro (⟨hx, hrx⟩ | ⟨hx, before, y, after, rfl, hy, hbefore, hry⟩)
    · exact ⟨[], x, xs, rfl, hx, by simp, hrx⟩
    · exact ⟨x :: before, y, after, rfl, hy, List.forall_mem_cons.mpr ⟨hx, hbefore⟩, hry⟩

theorem searchDotenv_eq_some_iff (directories : List Path) (path : Path) :
    searchDotenv files directories = some path ↔
      ∃ below directory above, directories = below ++ directory :: above ∧
        HasDotenv files directory ∧
        (∀ d ∈ below, ¬ HasDotenv files d ∧ ¬ IsProjectRoot files d) ∧
        directory / ".env" = path := by
  induction directories with
  | nil => simp [searchDotenv]
  | cons d ds ih =>
    rw [searchDotenv, exists_first_cons_iff]
    by_cases hd : HasDotenv files d
    · rw [dotenvIn_of_hasDotenv hd]
      simp [hd]
    · obtain ⟨stop, hin, hstop⟩ := dotenvIn_of_not_hasDotenv hd
      rw [hin]
      cases stop with
      | true =>
        have hroot : IsProjectRoot files d := hstop.mp rfl
        simp [hd, hroot]
      | false =>
        have hroot : ¬ IsProjectRoot files d := fun h => by simpa using hstop.mpr h
        simpa [hd, hroot] using ih

theorem dotenvFile_eq_some_iff (dotenvPath : Option String) (path : Path) :
    dotenvFile files dotenvPath = some path ↔ Consulted files dotenvPath path := by
  cases dotenvPath with
  | some text =>
    constructor
    · intro h
      rw [← Option.some.inj h]
      exact .given
    · rintro ⟨⟩
      rfl
  | none =>
    simp only [dotenvFile, nearestDotenv, Option.bind_eq_some_iff, searchDotenv_eq_some_iff]
    constructor
    · rintro ⟨_, hdirectories, below, directory, above, rfl, hdirectory, hbelow, rfl⟩
      exact .nearest hdirectories hdirectory hbelow
    · rintro (_ | ⟨hdirectories, hdirectory, hbelow⟩)
      exact ⟨_, hdirectories, _, _, _, rfl, hdirectory, hbelow, rfl⟩

/-! ## The variables -/

theorem mem_dotenvLines_iff (dotenvPath : Option String) (environ : Environ) (name : String)
    (value : Option String) :
    (dotenvLines files dotenvPath environ).lookup name = some value ↔
      ∃ path values, Consulted files dotenvPath path ∧
        files.dotenvValues path environ = some values ∧ values.lookup name = some value := by
  simp only [← dotenvFile_eq_some_iff, dotenvLines]
  cases dotenvFile files dotenvPath with
  | none => simp
  | some path =>
    cases hvalues : files.dotenvValues path environ with
    | none => simp [hvalues]
    | some values => simp [hvalues]

theorem loadedEnviron_eq_some_iff (dotenvPath : Option String) (environ : Environ)
    (name value : String) :
    loadedEnviron files dotenvPath environ name = some value ↔
      environ name = some value ∨ Adds files dotenvPath environ name value := by
  have hline : (if IsLogVariable name then
      ((dotenvLines files dotenvPath environ).lookup name).join else none) = some value ↔
      IsLogVariable name ∧ ∃ path values, Consulted files dotenvPath path ∧
        files.dotenvValues path environ = some values ∧
        values.lookup name = some (some value) := by
    rw [← mem_dotenvLines_iff]
    split
    case isTrue hlog => simp [hlog, Option.join_eq_some_iff]
    case isFalse hlog => simp [hlog]
  change (environ name).or (if IsLogVariable name then
    ((dotenvLines files dotenvPath environ).lookup name).join else none) = some value ↔ _
  rw [Option.or_eq_some_iff, hline, Adds]
  tauto

theorem linesFit_iff {R : Type} (dotenvPath : Option String) (process : Process R) :
    LinesFit files dotenvPath process ↔ ∀ name value,
      Adds files dotenvPath process.environ name value → process.refusal name value = none := by
  simp only [LinesFit, Process.Takes, Adds, ← mem_dotenvLines_iff]
  constructor
  · rintro h name value ⟨hlog, hnone, hline⟩
    exact h name value (AList.mem_lookup_iff.mp hline) hlog hnone
  · intro h name value hmem hlog hnone
    exact h name value ⟨hlog, hnone, AList.mem_lookup_iff.mpr hmem⟩

end Search

/-! ## The start -/

/-- What a start is to come to: the file's variables are added and nothing else is changed, and the
library runs with the configuration or, if that is refused, with the defaults. -/
structure StartedAsPromised {R : Type} (lib : LogLibrary R) (files : DotenvFiles)
    (config : Config) (dotenvPath : Option String) (before : Process R)
    (result : Except LogStop Unit × Process R) : Prop where
  environ : ∀ name value, result.2.environ name = some value ↔
    before.environ name = some value ∨ Adds files dotenvPath before.environ name value
  runs : (∃ settings, judged lib result.2.environ config = .ok settings ∧ result.1 = .ok () ∧
      result.2.runtime = some (result.2.environ, settings)) ∨
    ∃ error seen settings, judged lib result.2.environ config = .error error ∧
      result.1 = .error (.invalid ⟨problems error⟩) ∧
      FallbackSees lib result.2.environ seen settings ∧
      result.2.runtime = some (seen, settings)

/-- A start where logging is not running comes to what it is to come to exactly if every variable
that the file adds can be set. -/
theorem initLogging_iff {R : Type} {lib : LogLibrary R} (hlib : lib.StartsDefaults)
    (files : DotenvFiles) (config : Config) (dotenvPath : Option String) (before : Process R)
    (hstopped : before.runtime = none) :
    StartedAsPromised lib files config dotenvPath before
        ((initLogging lib files config dotenvPath).run (logHandler lib) before) ↔
      ∀ name value, Adds files dotenvPath before.environ name value →
        before.refusal name value = none := by
  rw [← linesFit_iff]
  have hend := initLogging_end hlib files config dotenvPath before hstopped
  generalize (initLogging lib files config dotenvPath).run (logHandler lib) before = result
    at hend ⊢
  cases hend with
  | stopped hfit =>
    refine iff_of_false ?_ hfit
    rintro ⟨-, ⟨settings, -, hok, -⟩ | ⟨error, seen, settings, -, hinvalid, -⟩⟩
    · cases hok
    · cases hinvalid
  | started hfit hjudged =>
    refine iff_of_true ⟨loadedEnviron_eq_some_iff dotenvPath before.environ, ?_⟩ hfit
    exact .inl ⟨_, hjudged, rfl, rfl⟩
  | invalid hfit hjudged hsees =>
    refine iff_of_true ⟨loadedEnviron_eq_some_iff dotenvPath before.environ, ?_⟩ hfit
    exact .inr ⟨_, _, _, hjudged, rfl, hsees, rfl⟩

/-- A library that refuses one value of one variable. -/
def levelLogging : LogLibrary (Table String Scalar) where
  modelValidate
    | .table entries => .ok { extra := entries }
    | .leaf _ => .error (.validation ⟨"1 validation error", by decide⟩ [([], "not a dictionary")])
  runtimeConfig _ _ extra := .ok extra
  init environ _ :=
    if environ "LOG_CONSOLE_LEVEL" = some "bogus" then
      .error (.bare ⟨"Unknown log level: 'bogus'", by decide⟩)
    else .ok ()
  validateConfig environ _ :=
    if environ "LOG_CONSOLE_LEVEL" = some "bogus" then
      .error (.bare ⟨"Unknown log level: 'bogus'", by decide⟩)
    else .ok ()

theorem levelLogging_lawful : levelLogging.Lawful where
  validateConfig_eq _ _ := rfl
  modelValidate_empty := rfl
  starts environ h := by
    have hlevel := h "LOG_CONSOLE_LEVEL" (by decide)
    exact ⟨[], rfl, by simp [levelLogging, hlevel]⟩

/-- One directory with a file of one line. -/
def oneLine (name value : String) : DotenvFiles where
  directories := some [⟨.slash, []⟩]
  isFile _ := some true
  present _ := some false
  dotenvValues _ _ := some (AList.singleton name (some value))

def emptyProcess : Process (Table String Scalar) := ⟨fun _ => none, fun _ => none, none⟩

/-- A refused level in the file: the defaults run without it, and it stays in the environment. -/
theorem initLogging_sample :
    StartedAsPromised levelLogging (oneLine "LOG_CONSOLE_LEVEL" "bogus") emptyConfig none
      emptyProcess ((initLogging levelLogging (oneLine "LOG_CONSOLE_LEVEL" "bogus") emptyConfig
        none).run (logHandler levelLogging) emptyProcess) := by
  refine (initLogging_iff levelLogging_lawful.toStartsDefaults _ emptyConfig none
    emptyProcess rfl).mpr ?_
  rintro name value ⟨-, -, path, values, -, hvalues, hlookup⟩
  obtain rfl := Option.some.inj hvalues
  have hmem := AList.mem_lookup_iff.mp hlookup
  obtain ⟨rfl, rfl⟩ : name = "LOG_CONSOLE_LEVEL" ∧ value = "bogus" := by
    simpa using hmem
  rfl

/-- A byte of zero in the value: the start ends in a `ValueError` that is no refusal of the
settings, and nothing runs. -/
theorem zero_byte_stops_start :
    levelLogging.StartsDefaults ∧
    (initLogging levelLogging (oneLine "LOG_A" "x\x00y") emptyConfig none).run
      (logHandler levelLogging) emptyProcess =
        (.error (.valueError (.bare ⟨"embedded null byte", by decide⟩)), emptyProcess) ∧
    ¬ StartedAsPromised levelLogging (oneLine "LOG_A" "x\x00y") emptyConfig none emptyProcess
      ((initLogging levelLogging (oneLine "LOG_A" "x\x00y") emptyConfig none).run
        (logHandler levelLogging) emptyProcess) := by
  have hrun : (initLogging levelLogging (oneLine "LOG_A" "x\x00y") emptyConfig none).run
      (logHandler levelLogging) emptyProcess =
        (.error (.valueError (.bare ⟨"embedded null byte", by decide⟩)), emptyProcess) := rfl
  refine ⟨levelLogging_lawful.toStartsDefaults, hrun, ?_⟩
  rw [hrun]
  rintro ⟨-, ⟨settings, -, hok, -⟩ | ⟨error, seen, settings, -, hinvalid, -⟩⟩
  · cases hok
  · cases hinvalid

end SrvBackup.Specification
