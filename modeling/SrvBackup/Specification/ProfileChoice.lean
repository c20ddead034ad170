import SrvBackup.Adapters.ConfigLoad
import SrvBackup.Specification.LoggingStart

/-!
# The two ways to choose a profile

`--profile P config` loads the profile in the root group, `config --profile P` loads it once more
after the root has loaded without a profile and has started logging.
`profile_choices_agree_iff` says for which command lines both end alike.
-/
namespace SrvBackup.Specification

open SrvBackup.Storage SrvBackup.Adapters

section

variable {R : Type} (services : AppServices R)

/-- `--profile P config` in a new process. -/
def viaRoot (profile : String) (setOverrides : List String) (envFile : Option String)
    (environ : Environ) : Except Stop (Config × Option String) :=
  configCommand services (some profile) none setOverrides envFile environ

/-- `config --profile P` in a new process. -/
def viaOption (profile : String) (setOverrides : List String) (envFile : Option String)
    (environ : Environ) : Except Stop (Config × Option String) :=
  configCommand services none (some profile) setOverrides envFile environ

/-- The name is valid, and the overrides are well formed and do not conflict. -/
def CommandLineFine (profile : String) (setOverrides : List String) : Prop :=
  services.validateProfile profile = .ok () ∧
    ∃ r, nestOverrides services.loads setOverrides = .ok r

/-- Both show the same configuration under the profile, or both refuse with the same code and the
same lines: 2 for the command line, 78 for what is loaded. -/
def Agree (profile : String) (setOverrides : List String)
    (a b : Except Stop (Config × Option String)) : Prop :=
  (∃ config, a = .ok (config, some profile) ∧ b = .ok (config, some profile)) ∨
    ∃ code lines, a = .error (.exit code lines) ∧ b = .error (.exit code lines) ∧
      (CommandLineFine services profile setOverrides → code = 78) ∧
      (¬ CommandLineFine services profile setOverrides → code = 2)

/-- A name that is refused is not empty and stands beside overrides that are fine, or the overrides
are refused in the same words. -/
def RefusedAlike (profile : String) (setOverrides : List String) : Prop :=
  ∀ text, services.validateProfile profile = .error text →
    (profile ≠ "" ∧ ∃ r, nestOverrides services.loads setOverrides = .ok r) ∨
      ∃ e, nestOverrides services.loads setOverrides = .error (.valueError e) ∧
        e.text services.repr = text

end

section

variable {R : Type} {services : AppServices R} {profile text : String} {setOverrides : List String}

theorem viaRoot_of_invalid (h : services.validateProfile profile = .error text)
    (envFile : Option String) (environ : Environ) :
    viaRoot services profile setOverrides envFile environ = .error (usageError text) :=
  configCommand_of_refused (checkCommandLine_of_invalid h setOverrides) none envFile environ

/-- The root looks at the overrides before the command looks at the profile. -/
theorem viaOption_of_refused {e : OverrideError}
    (h : nestOverrides services.loads setOverrides = .error (.valueError e))
    (envFile : Option String) (environ : Environ) :
    viaOption services profile setOverrides envFile environ =
      .error (usageError (e.text services.repr)) := by
  apply configCommand_of_refused
  rw [checkCommandLine_of_valid rfl]
  exact checkOverrides_of_refused h

theorem viaRoot_of_refused {e : OverrideError} (hname : services.validateProfile profile = .ok ())
    (h : nestOverrides services.loads setOverrides = .error (.valueError e))
    (envFile : Option String) (environ : Environ) :
    viaRoot services profile setOverrides envFile environ =
      .error (usageError (e.text services.repr)) := by
  apply configCommand_of_refused
  rw [checkCommandLine_of_valid (checkProfile_of_valid hname)]
  exact checkOverrides_of_refused h

/-- The root has loaded a configuration, but the variables of the file cannot be set. -/
theorem configCommand_of_not_fit (hlib : services.logging.Lawful) {rootProfile : Option String}
    {envFile : Option String} {environ : Environ} {loaded : Config × Option LoadError}
    (h : loadConfig services rootProfile envFile setOverrides = .ok loaded)
    (hfit : ¬ LinesFit services.files envFile (newProcess services environ))
    (given : Option String) :
    configCommand services rootProfile given setOverrides envFile environ = .error .raised := by
  rw [configCommand, cli_of_not_fit hlib.toStartsDefaults h hfit]
  rfl

theorem viaRoot_of_loaded (hlib : services.logging.Lawful) {envFile : Option String}
    {loaded : Config × Option LoadError}
    (h : loadConfig services (some profile) envFile setOverrides = .ok loaded) {environ : Environ}
    (hfit : LinesFit services.files envFile (newProcess services environ)) :
    viaRoot services profile setOverrides envFile environ =
      (settled services (loadedEnviron services.files envFile environ) loaded).map
        (·, some profile) := by
  obtain ⟨process, context, hcli, henviron, hprofile, -, -, hrequire⟩ := cli_of_loaded hlib h hfit
  rw [viaRoot, configCommand_of_cli hcli, resolveConfig_of_not_given rfl, hrequire, hprofile,
    henviron]
  cases settled services (loadedEnviron services.files envFile environ) loaded <;> rfl

/-- The command loads its profile in the process that the root leaves, whatever the root has
loaded. -/
theorem viaOption_of_given (hlib : services.logging.Lawful) (hne : profile ≠ "")
    (hset : ∃ r, nestOverrides services.loads setOverrides = .ok r) {envFile : Option String}
    {environ : Environ} (hfit : LinesFit services.files envFile (newProcess services environ)) :
    viaOption services profile setOverrides envFile environ = (do
      let loaded ← loadConfig services (some profile) envFile setOverrides
      let config ← settled services (loadedEnviron services.files envFile environ) loaded
      pure (config, some profile)) := by
  obtain ⟨loaded, hloaded⟩ := @exists_loadConfig _ services none _ rfl hset envFile
  obtain ⟨process, context, hcli, henviron, -, hover, henv, -⟩ :=
    cli_of_loaded hlib hloaded hfit
  rw [viaOption, configCommand_of_cli hcli, resolveConfig_of_given hne, hover, henv, henviron]

/-- The root stops at the file before the command looks at its profile. -/
theorem viaOption_of_not_fit (hlib : services.logging.Lawful)
    (hset : ∃ r, nestOverrides services.loads setOverrides = .ok r) {envFile : Option String}
    {environ : Environ} (hfit : ¬ LinesFit services.files envFile (newProcess services environ)) :
    viaOption services profile setOverrides envFile environ = .error .raised := by
  obtain ⟨loaded, hloaded⟩ := @exists_loadConfig _ services none _ rfl hset envFile
  exact configCommand_of_not_fit hlib hloaded hfit (some profile)

/-- What the process settles on is a configuration or a refusal with 78. -/
theorem settled_cases (services : AppServices R) (environ : Environ)
    (loaded : Config × Option LoadError) :
    (∃ config, settled services environ loaded = .ok config) ∨
      ∃ lines, settled services environ loaded = .error (.exit 78 lines) := by
  simp only [settled]
  cases loaded.2.or (checkLogging services loaded.1 environ) with
  | none => exact .inl ⟨_, rfl⟩
  | some error => exact .inr ⟨_, rfl⟩

/-- The empty text is no profile for the command, which so never refuses it. -/
theorem viaOption_empty (hlib : services.logging.Lawful)
    (hset : ∃ r, nestOverrides services.loads setOverrides = .ok r) {envFile : Option String}
    {environ : Environ} (hfit : LinesFit services.files envFile (newProcess services environ)) :
    (∃ config, viaOption services "" setOverrides envFile environ = .ok (config, none)) ∨
      ∃ lines, viaOption services "" setOverrides envFile environ = .error (.exit 78 lines) := by
  obtain ⟨loaded, hloaded⟩ := @exists_loadConfig _ services none _ rfl hset envFile
  obtain ⟨process, context, hcli, -, hprofile, -, -, hrequire⟩ := cli_of_loaded hlib hloaded hfit
  rw [viaOption, configCommand_of_cli hcli, resolveConfig_of_not_given rfl, hrequire, hprofile]
  rcases settled_cases services process.environ loaded with ⟨config, h⟩ | ⟨lines, h⟩
  · left
    rw [h]
    exact ⟨config, rfl⟩
  · right
    rw [h]
    exact ⟨lines, rfl⟩

theorem usageError_inj {a b : String} (h : usageError a = usageError b) : a = b := by
  simpa [usageError] using h

theorem agree_of_usageErrors (hfine : ¬ CommandLineFine services profile setOverrides)
    {a b : Except Stop (Config × Option String)} (ha : a = .error (usageError text))
    (hb : b = .error (usageError text)) : Agree services profile setOverrides a b :=
  .inr ⟨2, _, ha, hb, fun h => absurd h hfine, fun _ => rfl⟩

theorem not_agree_of_raised {a b : Except Stop (Config × Option String)}
    (ha : a = .error .raised) : ¬ Agree services profile setOverrides a b := by
  subst ha
  rintro (⟨config, hconfig, -⟩ | ⟨code, lines, hcode, -⟩)
  · cases hconfig
  · cases hcode

/-- A command line that is fine ends alike both ways. -/
theorem agree_of_fine (hlib : services.logging.Lawful) (hne : profile ≠ "")
    (hfine : CommandLineFine services profile setOverrides) {envFile : Option String}
    {environ : Environ} (hfit : LinesFit services.files envFile (newProcess services environ)) :
    Agree services profile setOverrides (viaOption services profile setOverrides envFile environ)
      (viaRoot services profile setOverrides envFile environ) := by
  obtain ⟨hname, hset⟩ := hfine
  obtain ⟨loaded, hloaded⟩ := exists_loadConfig (checkProfile_of_valid hname) hset envFile
  rw [viaOption_of_given hlib hne hset hfit, viaRoot_of_loaded hlib hloaded hfit, hloaded]
  change Agree services profile setOverrides
    (settled services (loadedEnviron services.files envFile environ) loaded >>= _) _
  rcases settled_cases services (loadedEnviron services.files envFile environ) loaded with
    ⟨config, h⟩ | ⟨lines, h⟩
  · rw [h]
    exact .inl ⟨config, rfl, rfl⟩
  · rw [h]
    exact .inr ⟨78, lines, rfl, rfl, fun _ => rfl, fun hno => absurd ⟨hname, hset⟩ hno⟩

/-- Overrides that are refused: the command line is refused alike if the name is valid or refused
in the same words. -/
theorem agree_iff_of_refused {e : OverrideError}
    (he : nestOverrides services.loads setOverrides = .error (.valueError e))
    (envFile : Option String) (environ : Environ) :
    Agree services profile setOverrides (viaOption services profile setOverrides envFile environ)
        (viaRoot services profile setOverrides envFile environ) ↔
      RefusedAlike services profile setOverrides := by
  have hoption := @viaOption_of_refused _ _ profile _ _ he envFile environ
  have hfine : ¬ CommandLineFine services profile setOverrides := by
    rintro ⟨-, r, hr⟩
    rw [he] at hr
    cases hr
  cases hname : services.validateProfile profile with
  | ok =>
    refine iff_of_true ?_ fun text htext => ?_
    · exact agree_of_usageErrors hfine hoption (viaRoot_of_refused hname he envFile environ)
    · rw [hname] at htext
      cases htext
  | error text =>
    have hroot := @viaRoot_of_invalid _ _ _ _ setOverrides hname envFile environ
    constructor
    · intro hagree text' htext
      obtain rfl : text = text' := Except.error.inj (hname.symm.trans htext)
      rw [hroot, hoption] at hagree
      obtain ⟨config, -, hconfig⟩ | ⟨code, lines, hcode, hlines, -⟩ := hagree
      · cases hconfig
      · exact .inr ⟨e, he,
          usageError_inj ((Except.error.inj hcode).trans (Except.error.inj hlines).symm)⟩
    · intro halike
      rcases halike text hname with ⟨-, r, hr⟩ | ⟨e', he', htext⟩
      · rw [he] at hr
        cases hr
      · obtain rfl : e = e' := by
          rw [he] at he'
          cases he'
          rfl
        rw [htext] at hoption
        exact agree_of_usageErrors hfine hoption hroot

/-- Overrides that are fine, and a file that the variables can be taken from. -/
theorem agree_iff_of_fit (hlib : services.logging.Lawful)
    (hempty : ∃ text, services.validateProfile "" = .error text)
    (hset : ∃ r, nestOverrides services.loads setOverrides = .ok r) {envFile : Option String}
    {environ : Environ} (hfit : LinesFit services.files envFile (newProcess services environ)) :
    Agree services profile setOverrides (viaOption services profile setOverrides envFile environ)
        (viaRoot services profile setOverrides envFile environ) ↔
      RefusedAlike services profile setOverrides := by
  cases hname : services.validateProfile profile with
  | ok =>
    have hne : profile ≠ "" := by
      rintro rfl
      obtain ⟨text, htext⟩ := hempty
      rw [htext] at hname
      cases hname
    refine iff_of_true (agree_of_fine hlib hne ⟨hname, hset⟩ hfit) fun text htext => ?_
    rw [hname] at htext
    cases htext
  | error text =>
    have hroot := @viaRoot_of_invalid _ _ _ _ setOverrides hname envFile environ
    constructor
    · intro hagree text' htext
      refine .inl ⟨?_, hset⟩
      rintro rfl
      rw [hroot] at hagree
      obtain ⟨config, -, hconfig⟩ | ⟨code, lines, hcode, hlines, -⟩ := hagree
      · cases hconfig
      rcases viaOption_empty hlib hset hfit with ⟨config, h⟩ | ⟨lines', h⟩
      · rw [h] at hcode
        cases hcode
      · rw [h] at hcode
        cases hcode
        cases hlines
    · intro halike
      have hfine : ¬ CommandLineFine services profile setOverrides := by
        rintro ⟨hok, -⟩
        rw [hname] at hok
        cases hok
      rcases halike text hname with ⟨hne, -⟩ | ⟨e, he, -⟩
      · refine agree_of_usageErrors hfine ?_ hroot
        rw [viaOption_of_given hlib hne hset hfit,
          loadConfig_of_refused (checkCommandLine_of_invalid hname setOverrides)]
        rfl
      · obtain ⟨r, hr⟩ := hset
        rw [he] at hr
        cases hr

/-- The two ways end alike exactly if `RefusedAlike` says so and, where the root comes to start
logging, the variables of the file can be set. -/
theorem profile_choices_agree_iff (hlib : services.logging.Lawful)
    (hempty : ∃ text, services.validateProfile "" = .error text) (profile : String)
    (setOverrides : List String) (envFile : Option String) (environ : Environ) :
    Agree services profile setOverrides (viaOption services profile setOverrides envFile environ)
        (viaRoot services profile setOverrides envFile environ) ↔
      RefusedAlike services profile setOverrides ∧
        ((∃ r, nestOverrides services.loads setOverrides = .ok r) →
          LinesFit services.files envFile (newProcess services environ)) := by
  rcases nestOverrides_cases services.loads setOverrides with hset | ⟨e, he⟩
  · by_cases hfit : LinesFit services.files envFile (newProcess services environ)
    · rw [agree_iff_of_fit hlib hempty hset hfit]
      exact (and_iff_left fun _ => hfit).symm
    · refine iff_of_false (not_agree_of_raised (viaOption_of_not_fit hlib hset hfit)) ?_
      exact fun h => hfit (h.2 hset)
  · rw [agree_iff_of_refused he]
    refine (and_iff_left fun hset => ?_).symm
    obtain ⟨r, hr⟩ := hset
    rw [he] at hr
    cases hr

end

/-- A configuration whose only setting tells which profile was loaded. -/
def profileConfig (profile : Option String) : Config :=
  ⟨[("backup", .table [("target", .leaf (.str (profile.getD "default")))])], ∅⟩

def profileServices : AppServices (Table String Scalar) where
  getConfig profile _ := .ok (profileConfig profile)
  validateProfile profile :=
    if profile = "" then .error "profile name cannot be empty" else .ok ()
  loads _ := none
  repr text := "'" ++ text ++ "'"
  withOverrides := Table.merge
  logging := levelLogging
  files := ⟨none, fun _ => none, fun _ => none, fun _ _ => none⟩
  unencodable _ := none

/-- A valid profile with a refused variable is refused both ways. -/
theorem profile_choices_agree_sample :
    Agree profileServices "production" []
      (viaOption profileServices "production" [] none fun name =>
        if name = "LOG_CONSOLE_LEVEL" then some "bogus" else none)
      (viaRoot profileServices "production" [] none fun name =>
        if name = "LOG_CONSOLE_LEVEL" then some "bogus" else none) := by
  refine (profile_choices_agree_iff levelLogging_lawful ⟨_, rfl⟩ "production" [] none _).mpr
    ⟨?_, ?_⟩
  · intro text htext
    cases htext
  · intro _ name value hmem
    cases hmem

/-- `config --profile ''` shows the configuration of no profile, `--profile '' config` refuses. -/
theorem empty_profile_is_ignored :
    profileServices.logging.Lawful ∧
      viaOption profileServices "" [] none (fun _ => none) = .ok (profileConfig none, none) ∧
      viaRoot profileServices "" [] none (fun _ => none) =
        .error (.exit 2 ["Error: profile name cannot be empty"]) ∧
      ¬ Agree profileServices "" [] (viaOption profileServices "" [] none fun _ => none)
        (viaRoot profileServices "" [] none fun _ => none) := by
  have hoption : viaOption profileServices "" [] none (fun _ => none) =
      .ok (profileConfig none, none) := rfl
  have hroot : viaRoot profileServices "" [] none (fun _ => none) =
      .error (.exit 2 ["Error: profile name cannot be empty"]) := rfl
  refine ⟨levelLogging_lawful, hoption, hroot, ?_⟩
  rw [hoption, hroot]
  rintro (⟨config, -, hconfig⟩ | ⟨code, lines, hcode, -⟩)
  · cases hconfig
  · cases hcode

end SrvBackup.Specification
