import SrvBackup.Adapters.Settings
import SrvBackup.Specification.LoggingStart
import SrvBackup.Specification.Provenance

/-!
# What the commands are set to

Files say what a setting is, `--set` says otherwise. `commands_settings` is about whole command
lines: both commands that reach the servers run with the last override of each setting, with what
the files have where there is no override, and with the default where the files have nothing.
-/
namespace SrvBackup.Specification

open SrvBackup.Domain SrvBackup.Storage SrvBackup.Adapters

/-- What a setting has, once the overrides are laid over the files. -/
def givenValue (merge : Table String Scalar → Table String Scalar → Table String Scalar)
    (file : Table String Scalar) (overrides : List ConfigOverride) (s : Setting) : Value :=
  (Table.assigned merge file (assignments overrides) s.path).getD (.leaf s.default)

/-- The overrides that concern settings name them: none is for a table with settings in it, or for
a key below a setting. -/
def NamesSettings (overrides : List ConfigOverride) : Prop :=
  ∀ o ∈ overrides, ∀ s : Setting, o.path <+: s.path ∨ s.path <+: o.path → o.path = s.path

/-- The overrides leave the servers alone. -/
def SparesServers (overrides : List ConfigOverride) : Prop :=
  ∀ o ∈ overrides, ¬ ["backup", "servers"] <+: o.path

section Data

variable {loads : String → Option Value}
  {merge : Table String Scalar → Table String Scalar → Table String Scalar} {config result : Config}
  {raws : List String}

/-- What overrides leave at a path that no other override's path is above or below. -/
theorem at?_applyOverrides (hmerge : Table.IsMerge merge)
    (h : applyOverrides loads merge config raws = .ok result) {p : List String} (hnil : p ≠ [])
    (halone : ∀ o ∈ parsed loads raws, o.path <+: p ∨ p <+: o.path → o.path = p) :
    (Nested.table result.data).at? p =
      Table.assigned merge config.data (assignments (parsed loads raws)) p := by
  obtain ⟨-, -, ⟨rfl, rfl⟩ | ⟨es, hholds, hdata, -⟩⟩ := applyOverrides_ok h
  · rfl
  · rw [hdata]
    refine hmerge.at?_assigned hholds hnil fun q hq => ?_
    obtain ⟨o, ho, rfl⟩ := exists_override hq
    exact halone o ho

/-- And at one that none is above. -/
theorem at?_applyOverrides_above (hmerge : Table.IsMerge merge)
    (h : applyOverrides loads merge config raws = .ok result) {p : List String} (hnil : p ≠ [])
    (hfree : ∀ o ∈ parsed loads raws, ¬ o.path <+: p) :
    (∃ sub, (Nested.table result.data).at? p = some (.table sub)) ∨
      (Nested.table result.data).at? p = (Nested.table config.data).at? p := by
  obtain ⟨-, -, ⟨rfl, rfl⟩ | ⟨es, hholds, hdata, -⟩⟩ := applyOverrides_ok h
  · exact .inr rfl
  · rw [hdata]
    refine hmerge.at?_above hholds hnil fun q hq => ?_
    obtain ⟨o, ho, rfl⟩ := exists_override hq
    exact hfree o ho

/-- The section stays a table. -/
theorem backup_applyOverrides (hmerge : Table.IsMerge merge)
    (h : applyOverrides loads merge config raws = .ok result) (hfile : HasSections config.data)
    {v : Value} (hv : (Nested.table result.data).at? ["backup"] = some v) :
    ∃ es, v = .table es := by
  rcases at?_applyOverrides_above hmerge h (by simp) fun o ho =>
    (isKeyPath_of_mem_parsed ho).not_prefix_singleton "backup" with ⟨sub, hsub⟩ | hsame
  · exact ⟨sub, Option.some.inj (hv.symm.trans hsub)⟩
  · exact hfile.backup v (hsame ▸ hv)

theorem hasSections_applyOverrides (hmerge : Table.IsMerge merge)
    (h : applyOverrides loads merge config raws = .ok result) (hfile : HasSections config.data)
    (hnames : NamesSettings (parsed loads raws)) : HasSections result.data where
  backup _ := backup_applyOverrides hmerge h hfile
  configPaths v hv := by
    have hfree : ∀ o ∈ parsed loads raws, ¬ o.path <+: ["backup", "config_paths"] := by
      intro o ho hpre
      have hpath := hnames o ho .configPaths (.inl (hpre.trans (by decide)))
      rw [hpath] at hpre
      exact absurd hpre (by decide)
    rcases at?_applyOverrides_above hmerge h (by simp) hfree with ⟨sub, hsub⟩ | hsame
    · exact ⟨sub, Option.some.inj (hv.symm.trans hsub)⟩
    · exact hfile.configPaths v (hsame ▸ hv)

theorem extractBackupSettings_applyOverrides (py : Python) (hmerge : Table.IsMerge merge)
    (h : applyOverrides loads merge config raws = .ok result) (hfile : HasSections config.data)
    (hnames : NamesSettings (parsed loads raws)) :
    extractBackupSettings py result.data =
      settingsOf py (givenValue merge config.data (parsed loads raws)) := by
  rw [extractBackupSettings_eq py (hasSections_applyOverrides hmerge h hfile hnames)]
  congr 1
  funext s
  rw [Setting.value, givenValue, at?_applyOverrides hmerge h (by simp [Setting.path])
    fun o ho => hnames o ho s]

/-- The servers come from one table. -/
theorem serversFromConfig_eq (str : Value → String) {data : Table String Scalar}
    (h : ∀ v, (Nested.table data).at? ["backup"] = some v → ∃ es, v = .table es) :
    serversFromConfig str data = (do
      let serversDict ← asTable (((Nested.table data).at? ["backup", "servers"]).getD (.table []))
      let servers ← serversDict.mapM fun entry => serverFromConfig str entry.1 entry.2
      pure (servers.insertionSort fun s t => s.name ≤ t.name)) := by
  have hget : ∀ es, asTable (.table es) = pure es := fun _ => rfl
  unfold serversFromConfig
  cases hlookup : data.lookup "backup" with
  | none => simp [hget, Nested.at?_table_cons, hlookup]
  | some v =>
    obtain ⟨backup, rfl⟩ := h v ((Nested.at?_singleton _ _).trans hlookup)
    have hservers : (Nested.table data).at? ["backup", "servers"] = backup.lookup "servers" := by
      rw [Nested.at?_table_cons, hlookup, Option.bind_some, Nested.at?_singleton]
    simp only [hservers, Option.getD_some, hget, pure_bind]

/-- Overrides of other keys leave the servers of the files. -/
theorem serversFromConfig_applyOverrides (str : Value → String) (hmerge : Table.IsMerge merge)
    (h : applyOverrides loads merge config raws = .ok result) (hfile : HasSections config.data)
    (hservers : SparesServers (parsed loads raws)) :
    serversFromConfig str result.data = serversFromConfig str config.data := by
  have halone : ∀ o ∈ parsed loads raws,
      o.path <+: ["backup", "servers"] ∨ ["backup", "servers"] <+: o.path →
        o.path = ["backup", "servers"] := by
    rintro o ho (hpre | hpre)
    · exact hpre.eq_of_length_le (isKeyPath_of_mem_parsed ho).1
    · exact absurd hpre (hservers o ho)
  have hsame : (Nested.table result.data).at? ["backup", "servers"] =
      (Nested.table config.data).at? ["backup", "servers"] := by
    rw [at?_applyOverrides hmerge h (by simp) halone, Table.assigned]
    cases hlast : Table.lastValue (assignments (parsed loads raws)) ["backup", "servers"] with
    | none => rfl
    | some v =>
      obtain ⟨o, ho, hpath⟩ := exists_override (Table.exists_lastValue.mp ⟨v, hlast⟩)
      exact absurd (hpath ▸ List.prefix_rfl) (hservers o ho)
  rw [serversFromConfig_eq str fun _ => backup_applyOverrides hmerge h hfile,
    serversFromConfig_eq str hfile.backup, hsame]

end Data

section Commands

variable {R : Type} {services : AppServices R} {profile envFile : Option String}
  {setOverrides : List String} {environ : Environ} {file : Config}

/-- A command that gets a configuration gets the files with the overrides. -/
theorem commandConfig_ok {config : Config} (hget : services.getConfig profile envFile = .ok file)
    (h : commandConfig services profile setOverrides envFile environ = .ok config) :
    applyOverrides services.loads services.withOverrides file setOverrides = .ok config := by
  unfold commandConfig cli loadConfig at h
  cases hline : checkCommandLine services profile setOverrides with
  | error stop =>
    rw [hline] at h
    cases h
  | ok =>
    rw [hline, hget] at h
    cases happly : applyOverrides services.loads services.withOverrides file setOverrides with
    | error e =>
      simp only [happly] at h
      cases h
    | ok result =>
      simp only [happly] at h
      change (startLogging services result none envFile (newProcess services environ) >>= _) >>= _ =
        _ at h
      unfold startLogging at h
      split at h
      · cases h
        rfl
      · cases h
      · cases h

/-- Both commands that reach the servers take their settings from the last overrides, from the
files and from the defaults, in this order, and back up the very paths of the list that is given.
Overrides of other keys leave the servers of the files. -/
theorem commands_settings (MailConfig : Type) (py : Python)
    (hmerge : Table.IsMerge services.withOverrides)
    (hget : services.getConfig profile envFile = .ok file) (hfile : HasSections file.data)
    (hnames : NamesSettings (parsed services.loads setOverrides))
    (htexts : OnlyTexts (givenValue services.withOverrides file.data
      (parsed services.loads setOverrides) .configPaths)) {result : Config}
    (h : commandConfig services profile setOverrides envFile environ = .ok result)
    (server : Option String) (types : BackupType) (dryRun : Bool) :
    (startBackup py services profile setOverrides envFile environ server types dryRun :
        Except Stop (CommandProg MailConfig Unit)) =
      ((serversFromConfig py.str result.data).mapError fun _ => Stop.raised).map (fun servers =>
        backupCommand servers server types dryRun (settingsOf py
          (givenValue services.withOverrides file.data (parsed services.loads setOverrides)))) ∧
    startSetupKeys py services profile setOverrides envFile environ =
      ((serversFromConfig py.str result.data).mapError fun _ => Stop.raised).map (fun servers =>
        setupKeysCommand servers (settingsOf py
          (givenValue services.withOverrides file.data (parsed services.loads setOverrides)))) ∧
    (∀ settings items, settingsOf py (givenValue services.withOverrides file.data
        (parsed services.loads setOverrides)) = .ok settings →
      givenValue services.withOverrides file.data (parsed services.loads setOverrides)
        .configPaths = .leaf (.list items) →
      items = settings.configPaths.map fun s => .leaf (.str s)) ∧
    (SparesServers (parsed services.loads setOverrides) →
      serversFromConfig py.str result.data = serversFromConfig py.str file.data) := by
  have happly := commandConfig_ok hget h
  have hsettings := extractBackupSettings_applyOverrides py hmerge happly hfile hnames
  have harguments : commandArguments py services profile setOverrides envFile environ =
      ((serversFromConfig py.str result.data).mapError fun _ => Stop.raised).map (fun servers =>
        (servers, settingsOf py (givenValue services.withOverrides file.data
          (parsed services.loads setOverrides)))) := by
    rw [commandArguments, h, ← hsettings]
    change (serversFromConfig py.str result.data).mapError _ >>= _ = _
    cases serversFromConfig py.str result.data <;> rfl
  refine ⟨?_, ?_, fun settings items hok => configPaths_settingsOf hok htexts,
    serversFromConfig_applyOverrides py.str hmerge happly hfile⟩
  · rw [startBackup, harguments]
    cases serversFromConfig py.str result.data <;> rfl
  · rw [startSetupKeys, harguments]
    cases serversFromConfig py.str result.data <;> rfl

end Commands

/-- A reader of the JSON texts `2` and `8`. -/
def numberLoads (raw : String) : Option Value :=
  if raw = "2" then some (.leaf (.int 2)) else if raw = "8" then some (.leaf (.int 8)) else none

/-- Files with one server, which say how many backups may run at once. -/
def parallelFile : Config where
  data := [("backup", .table [("max_parallel", .leaf (.str "4")),
    ("servers", .table [("px01", .table [("hostname", .leaf (.str "10.0.0.1"))])])])]
  provenance := ∅

def settingsServices : AppServices (Table String Scalar) where
  getConfig _ _ := .ok parallelFile
  validateProfile _ := .ok ()
  loads := numberLoads
  repr text := "'" ++ text ++ "'"
  withOverrides := Table.merge
  logging := levelLogging
  files := ⟨none, fun _ => none, fun _ => none, fun _ _ => none⟩
  unencodable _ := none

def samplePython : Python where
  str
    | .leaf (.str s) => s
    | _ => ""
  str_text _ := rfl
  intOfText text := if text = "4" then .ok 4 else .error (.other "invalid literal")
  unfit _ _ := .other "unfit"

def settingsOverrides : List String :=
  ["backup.max_parallel=2", "backup.ssh_user=ops", "backup.max_parallel=8"]

theorem mem_settingsOverrides {o : ConfigOverride}
    (ho : o ∈ parsed settingsServices.loads settingsOverrides) :
    o.path ∈ [["backup", "max_parallel"], ["backup", "ssh_user"]] := by
  have hpaths : ∀ p ∈ (parsed settingsServices.loads settingsOverrides).map ConfigOverride.path,
      p ∈ [["backup", "max_parallel"], ["backup", "ssh_user"]] := by decide
  exact hpaths o.path (List.mem_map_of_mem ho)

theorem namesSettings_sample :
    NamesSettings (parsed settingsServices.loads settingsOverrides) := by
  intro o ho s
  have hpath := mem_settingsOverrides ho
  revert hpath
  generalize o.path = p
  revert p
  cases s <;> decide

theorem onlyTexts_sample : OnlyTexts (givenValue Table.merge parallelFile.data
    (parsed settingsServices.loads settingsOverrides) .configPaths) := by
  have hnone : givenValue Table.merge parallelFile.data
      (parsed settingsServices.loads settingsOverrides) .configPaths = .leaf (.list []) := rfl
  rintro items hitems item hmem
  cases hnone.symm.trans hitems
  contradiction

theorem sparesServers_sample :
    SparesServers (parsed settingsServices.loads settingsOverrides) := by
  intro o ho
  have hpath := mem_settingsOverrides ho
  revert hpath
  generalize o.path = p
  revert p
  decide

/-- The last of two values counts, and a text of the files gives way to it. -/
theorem commands_settings_sample : ∃ result,
    commandConfig settingsServices none settingsOverrides none (fun _ => none) = .ok result ∧
    (startBackup samplePython settingsServices none settingsOverrides none (fun _ => none) none .all
        false : Except Stop (CommandProg Unit Unit)) =
      .ok (backupCommand [⟨"px01", "10.0.0.1", "rpool", false, true, true⟩] none .all false
        (.ok {
          backupBaseDir := Path.ofString "/mnt/zpool-ssd/px-node-backups", maxParallel := 8
          zfsRetentionCount := 3, configRetentionCount := 30, packagelistRetentionCount := 30
          sshUser := "ops", sshConnectTimeout := 15, sshKeyDir := "/root/.ssh"
          sshKeyPrefix := "backup_pull" })) := by
  obtain ⟨result, hresult⟩ : ∃ result,
      commandConfig settingsServices none settingsOverrides none (fun _ => none) = .ok result :=
    ⟨_, rfl⟩
  have hfile : HasSections parallelFile.data := by
    constructor
    · rintro _ ⟨⟩
      exact ⟨_, rfl⟩
    · rintro _ ⟨⟩
  refine ⟨result, hresult, ?_⟩
  have hget : settingsServices.getConfig none none = .ok parallelFile := rfl
  have hcommands := commands_settings Unit samplePython Table.merge_isMerge hget hfile
    namesSettings_sample onlyTexts_sample hresult none .all false
  rw [hcommands.1, hcommands.2.2.2 sparesServers_sample]
  rfl

end SrvBackup.Specification
