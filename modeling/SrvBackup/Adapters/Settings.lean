import SrvBackup.Adapters.ConfigLoad
import SrvBackup.Adapters.KeysCommand
import SrvBackup.Adapters.Servers

/-!
# Settings from the configuration

`extractBackupSettings` reads the section `backup`, with `settingsOf` for the conversions of the
values that it finds. `startBackup` and `startSetupKeys` are the commands from their command line
on: both take the servers and the settings from the configuration that the root has loaded.
-/
namespace SrvBackup.Adapters

open SrvBackup.Domain SrvBackup.Storage SrvBackup.Text

/-- What a value was used as when it turned out to be unfit. -/
inductive Use where
  | get
  | int
  | path
  | list
  deriving DecidableEq, Repr

/-- Python's `str` of a value and `int` of a text, and what it raises for an unfit value. -/
structure Python where
  str : Value → String
  str_text : ∀ s, str (.leaf (.str s)) = s
  intOfText : String → Except Error Int
  unfit : Use → Value → Error

namespace Python

variable (py : Python)

def getTable : Value → Except Error (Table String Scalar)
  | .table es => .ok es
  | v => .error (py.unfit .get v)

/-- `int(value)`; a float is cut off. -/
def int : Value → Except Error Int
  | .leaf (.bool b) => .ok (if b then 1 else 0)
  | .leaf (.int i) => .ok i
  | .leaf (.float x) => .ok (if 0 ≤ x then x.floor else x.ceil)
  | .leaf (.str s) => py.intOfText s
  | v => .error (py.unfit .int v)

/-- `Path(value)`. -/
def path : Value → Except Error Path
  | .leaf (.str s) => .ok (Path.ofString s)
  | v => .error (py.unfit .path v)

/-- `list[str](value)`: the items of a list, the letters of a text or the keys of a table. An item
that is no text stays what it is there; here its text stands for it, which is all that an exclude
pattern is used for. A path has to be a text: joining the paths fails otherwise. -/
def list : Value → Except Error (List String)
  | .leaf (.list items) => .ok (items.map py.str)
  | .leaf (.str s) => .ok (s.toList.map String.singleton)
  | .table es => .ok (es.map Prod.fst)
  | v => .error (py.unfit .list v)

end Python

def extractBackupSettings (py : Python) (config : Table String Scalar) :
    Except Error BackupSettings := do
  let backupCfg ← py.getTable ((config.lookup "backup").getD (.table []))
  let configPathsSection := (backupCfg.lookup "config_paths").getD (.table [])
  let get := fun key default => (backupCfg.lookup key).getD (.leaf default)
  let backupBaseDir ← py.path (get "backup_base_dir" (.str "/mnt/zpool-ssd/px-node-backups"))
  let maxParallel ← py.int (get "max_parallel" (.int 4))
  let zfsRetentionCount ← py.int (get "zfs_retention_count" (.int 3))
  let configRetentionCount ← py.int (get "config_retention_count" (.int 30))
  let packagelistRetentionCount ← py.int (get "packagelist_retention_count" (.int 30))
  let sshUser := py.str (get "ssh_user" (.str "root"))
  let sshConnectTimeout ← py.int (get "ssh_connect_timeout" (.int 15))
  let sshKeyDir := py.str (get "ssh_key_dir" (.str "/root/.ssh"))
  let sshKeyPrefix := py.str (get "ssh_key_prefix" (.str "backup_pull"))
  let bootstrapKey := py.str (get "bootstrap_key" (.str ""))
  let authorizedKeysPath :=
    py.str (get "authorized_keys_path" (.str "/etc/pve/priv/authorized_keys"))
  let configPaths ← py.getTable configPathsSection
  let paths ← py.list ((configPaths.lookup "paths").getD (.leaf (.list [])))
  let excludePatterns ← py.list ((configPaths.lookup "exclude_patterns").getD (.leaf (.list [])))
  pure {
    backupBaseDir, maxParallel, zfsRetentionCount, configRetentionCount, packagelistRetentionCount,
    sshUser, sshConnectTimeout, sshKeyDir, sshKeyPrefix, bootstrapKey, authorizedKeysPath,
    configPaths := paths, excludePatterns }

/-! ## The settings one by one -/

/-- A key of the section. -/
inductive Setting where
  | backupBaseDir
  | maxParallel
  | zfsRetentionCount
  | configRetentionCount
  | packagelistRetentionCount
  | sshUser
  | sshConnectTimeout
  | sshKeyDir
  | sshKeyPrefix
  | bootstrapKey
  | authorizedKeysPath
  | configPaths
  | excludePatterns
  deriving DecidableEq, Repr

namespace Setting

/-- The key, below the section. -/
def keys : Setting → List String
  | backupBaseDir => ["backup_base_dir"]
  | maxParallel => ["max_parallel"]
  | zfsRetentionCount => ["zfs_retention_count"]
  | configRetentionCount => ["config_retention_count"]
  | packagelistRetentionCount => ["packagelist_retention_count"]
  | sshUser => ["ssh_user"]
  | sshConnectTimeout => ["ssh_connect_timeout"]
  | sshKeyDir => ["ssh_key_dir"]
  | sshKeyPrefix => ["ssh_key_prefix"]
  | bootstrapKey => ["bootstrap_key"]
  | authorizedKeysPath => ["authorized_keys_path"]
  | configPaths => ["config_paths", "paths"]
  | excludePatterns => ["config_paths", "exclude_patterns"]

def path (s : Setting) : List String := "backup" :: s.keys

def default : Setting → Scalar
  | backupBaseDir => .str "/mnt/zpool-ssd/px-node-backups"
  | maxParallel => .int 4
  | zfsRetentionCount => .int 3
  | configRetentionCount => .int 30
  | packagelistRetentionCount => .int 30
  | sshUser => .str "root"
  | sshConnectTimeout => .int 15
  | sshKeyDir => .str "/root/.ssh"
  | sshKeyPrefix => .str "backup_pull"
  | bootstrapKey => .str ""
  | authorizedKeysPath => .str "/etc/pve/priv/authorized_keys"
  | configPaths => .list []
  | excludePatterns => .list []

/-- What a configuration has for the setting. -/
def value (config : Table String Scalar) (s : Setting) : Value :=
  ((Nested.table config).at? s.path).getD (.leaf s.default)

end Setting

/-- The conversions, in the order in which they are made. -/
def settingsOf (py : Python) (value : Setting → Value) : Except Error BackupSettings := do
  let backupBaseDir ← py.path (value .backupBaseDir)
  let maxParallel ← py.int (value .maxParallel)
  let zfsRetentionCount ← py.int (value .zfsRetentionCount)
  let configRetentionCount ← py.int (value .configRetentionCount)
  let packagelistRetentionCount ← py.int (value .packagelistRetentionCount)
  let sshConnectTimeout ← py.int (value .sshConnectTimeout)
  let configPaths ← py.list (value .configPaths)
  let excludePatterns ← py.list (value .excludePatterns)
  pure {
    backupBaseDir, maxParallel, zfsRetentionCount, configRetentionCount, packagelistRetentionCount,
    sshUser := py.str (value .sshUser), sshConnectTimeout
    sshKeyDir := py.str (value .sshKeyDir), sshKeyPrefix := py.str (value .sshKeyPrefix)
    bootstrapKey := py.str (value .bootstrapKey)
    authorizedKeysPath := py.str (value .authorizedKeysPath)
    configPaths, excludePatterns }

theorem bind_eq_ok_iff {ε α β : Type} {x : Except ε α} {f : α → Except ε β} {b : β} :
    (x >>= f) = .ok b ↔ ∃ a, x = .ok a ∧ f a = .ok b := by
  cases x <;> simp [bind, Except.bind]

/-- A value of texts only, where it is a list. -/
def OnlyTexts (v : Value) : Prop :=
  ∀ items, v = .leaf (.list items) → ∀ item ∈ items, ∃ s, item = .leaf (.str s)

/-- The settings have the very paths of a list of texts. -/
theorem configPaths_settingsOf {py : Python} {value : Setting → Value} {settings : BackupSettings}
    (h : settingsOf py value = .ok settings) (htexts : OnlyTexts (value .configPaths))
    {items : List Value} (hitems : value .configPaths = .leaf (.list items)) :
    items = settings.configPaths.map fun s => .leaf (.str s) := by
  have hpaths : settings.configPaths = items.map py.str := by
    simp only [settingsOf, hitems, bind_eq_ok_iff] at h
    obtain ⟨_, -, _, -, _, -, _, -, _, -, _, -, paths, hlist, _, -, h⟩ := h
    obtain rfl := Except.ok.inj hlist
    exact congrArg BackupSettings.configPaths (Except.ok.inj h).symm
  rw [hpaths, List.map_map]
  refine (List.map_id items).symm.trans (List.map_congr_left fun item hmem => ?_)
  obtain ⟨s, rfl⟩ := htexts items hitems item hmem
  rw [Function.comp_apply, py.str_text]
  rfl

/-- Both sections are tables, where they are there at all. -/
structure HasSections (config : Table String Scalar) : Prop where
  backup : ∀ v, (Nested.table config).at? ["backup"] = some v → ∃ es, v = .table es
  configPaths : ∀ v, (Nested.table config).at? ["backup", "config_paths"] = some v →
    ∃ es, v = .table es

theorem extractBackupSettings_eq (py : Python) {config : Table String Scalar}
    (h : HasSections config) :
    extractBackupSettings py config = settingsOf py (Setting.value config) := by
  obtain ⟨backup, hbackup⟩ : ∃ es, (config.lookup "backup").getD (.table []) = .table es := by
    cases hlookup : config.lookup "backup" with
    | none => exact ⟨[], rfl⟩
    | some v => exact h.backup v ((Nested.at?_singleton _ _).trans hlookup)
  have hvalue : ∀ p, p ≠ [] →
      (Nested.table config).at? ("backup" :: p) = (Nested.table backup).at? p := fun p hp => by
    rw [Nested.at?_table_cons, ← hbackup, Nested.at?_getD_table _ hp]
  obtain ⟨paths, hpaths⟩ :
      ∃ es, (backup.lookup "config_paths").getD (.table []) = .table es := by
    cases hlookup : backup.lookup "config_paths" with
    | none => exact ⟨[], rfl⟩
    | some v =>
      refine h.configPaths v ?_
      rw [hvalue _ (by simp), Nested.at?_singleton, hlookup]
  have htwo : ∀ key, (Nested.table backup).at? ["config_paths", key] = paths.lookup key :=
    fun key => by
      rw [Nested.at?_table_cons, ← Nested.at?_getD_table _ (List.cons_ne_nil _ _), hpaths,
        Nested.at?_singleton]
  have hget : ∀ es, py.getTable (.table es) = pure es := fun _ => rfl
  unfold extractBackupSettings settingsOf
  simp only [Setting.value, Setting.path, Setting.keys, Setting.default,
    hvalue _ (List.cons_ne_nil _ _), Nested.at?_singleton, htwo, hbackup, hget, pure_bind, hpaths]

/-! ## The commands from the command line on -/

section Start

variable {R : Type} (py : Python) (services : AppServices R)

/-- What a command that needs the configuration gets from the root, in a new process. -/
def commandConfig (profile : Option String) (setOverrides : List String) (envFile : Option String)
    (environ : Environ) : Except Stop Config := do
  let (_, context) ← cli services profile setOverrides envFile (newProcess services environ)
  requireConfig context

/-- The servers and the settings, with which both commands begin. -/
def commandArguments (profile : Option String) (setOverrides : List String)
    (envFile : Option String) (environ : Environ) :
    Except Stop (List ServerConfig × Except Error BackupSettings) := do
  let config ← commandConfig services profile setOverrides envFile environ
  let servers ← (serversFromConfig py.str config.data).mapError fun _ => .raised
  pure (servers, extractBackupSettings py config.data)

def startBackup {MailConfig : Type} (profile : Option String) (setOverrides : List String)
    (envFile : Option String) (environ : Environ) (server : Option String) (types : BackupType)
    (dryRun : Bool) : Except Stop (CommandProg MailConfig Unit) := do
  let (servers, config) ← commandArguments py services profile setOverrides envFile environ
  pure (backupCommand servers server types dryRun config)

def startSetupKeys (profile : Option String) (setOverrides : List String)
    (envFile : Option String) (environ : Environ) : Except Stop (KeysCommandProg Unit) := do
  let (servers, config) ← commandArguments py services profile setOverrides envFile environ
  pure (setupKeysCommand servers config)

end Start

end SrvBackup.Adapters
