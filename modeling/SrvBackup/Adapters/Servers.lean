import SrvBackup.Adapters.Overrides
import SrvBackup.Domain.Models
import Mathlib.Data.List.Sort

/-!
# Servers from the configuration

`serversFromConfig` reads the table `backup.servers`. Flags arrive as booleans or as text, and
anything else counts as the default. `str` stands for Python's `str` of a value.
-/
namespace SrvBackup.Adapters

open SrvBackup.Domain SrvBackup.Storage SrvBackup.Text

/-- `s.lower()`, as far as these texts go: no other letter has one of theirs as its small letter. -/
def lower (s : String) : String := String.ofList (s.toList.map Char.toLower)

/-- `_FALSY_STRINGS`. -/
def falsyStrings : List String := ["false", "0", "no", "off", ""]

/-- A text that reads as false. -/
def Falsy (s : String) : Prop := lower (strip s) ∈ falsyStrings

instance (s : String) : Decidable (Falsy s) := by unfold Falsy; infer_instance

/-- `_as_bool`. -/
def asBool (value : Value) (default : Bool) : Bool :=
  match value with
  | .leaf (.bool b) => b
  | .leaf (.str s) => !decide (Falsy s)
  | _ => default

/-- What has no `get` or `items` is an `AttributeError`. -/
def asTable : Value → Except Raised (Table String Scalar)
  | .table es => .ok es
  | .leaf _ => .error .attributeError

/-- One entry of `backup.servers`. -/
def serverFromConfig (str : Value → String) (name : String) (srvCfg : Value) :
    Except Raised ServerConfig := do
  let entries ← asTable srvCfg
  pure {
    name := name
    hostname := str ((entries.lookup "hostname").getD (.leaf (.str "")))
    zfsPool := str ((entries.lookup "zfs_pool").getD (.leaf (.str "rpool")))
    isLocal := asBool ((entries.lookup "is_local").getD (.leaf (.bool false))) false
    backupConfigfiles :=
      asBool ((entries.lookup "backup_configfiles").getD (.leaf (.bool true))) true
    backupSnapshot := asBool ((entries.lookup "backup_snapshot").getD (.leaf (.bool true))) true }

/-- `_servers_from_config`. -/
def serversFromConfig (str : Value → String) (config : Table String Scalar) :
    Except Raised (List ServerConfig) := do
  let backup ← asTable ((config.lookup "backup").getD (.table []))
  let serversDict ← asTable ((backup.lookup "servers").getD (.table []))
  let servers ← serversDict.mapM fun entry => serverFromConfig str entry.1 entry.2
  pure (servers.insertionSort fun s t => s.name ≤ t.name)

/-- The flags of a server. -/
inductive Flag where
  | isLocal
  | backupConfigfiles
  | backupSnapshot
  deriving DecidableEq, Repr

namespace Flag

def key : Flag → String
  | isLocal => "is_local"
  | backupConfigfiles => "backup_configfiles"
  | backupSnapshot => "backup_snapshot"

def default : Flag → Bool
  | isLocal => false
  | backupConfigfiles => true
  | backupSnapshot => true

def get (server : ServerConfig) : Flag → Bool
  | isLocal => server.isLocal
  | backupConfigfiles => server.backupConfigfiles
  | backupSnapshot => server.backupSnapshot

end Flag

/-! ## The server of a name -/

/-- Sorting by a key leaves the first entry of each key the first. -/
theorem find?_orderedInsert {α β : Type} [LinearOrder β] (f : α → β) (b : β) (a : α) (l : List α) :
    (l.orderedInsert (fun x y => f x ≤ f y) a).find? (fun x => f x = b) =
      if f a = b then some a else l.find? (fun x => f x = b) := by
  induction l with
  | nil => by_cases ha : f a = b <;> simp [ha]
  | cons x l ih =>
    rw [List.orderedInsert_cons]
    split
    · rw [List.find?_cons]
      by_cases ha : f a = b <;> simp [ha]
    · next hlt =>
      rw [List.find?_cons, List.find?_cons, ih]
      by_cases ha : f a = b
      · have hx : f x ≠ b := by
          rintro rfl
          exact hlt ha.le
        simp [ha, hx]
      · by_cases hx : f x = b <;> simp [ha, hx]

theorem find?_insertionSort {α β : Type} [LinearOrder β] (f : α → β) (b : β) (l : List α) :
    (l.insertionSort (fun x y => f x ≤ f y)).find? (fun x => f x = b) =
      l.find? (fun x => f x = b) := by
  induction l with
  | nil => rfl
  | cons a l ih =>
    rw [List.insertionSort_cons, find?_orderedInsert, ih, List.find?_cons]
    by_cases ha : f a = b <;> simp [ha]

section Servers

variable {str : Value → String}

theorem serverFromConfig_ok {name : String} {srvCfg : Value} {server : ServerConfig}
    (h : serverFromConfig str name srvCfg = .ok server) :
    server.name = name ∧ ∀ (flag : Flag) value,
      srvCfg.at? [flag.key] = some value → flag.get server = asBool value flag.default := by
  cases srvCfg with
  | leaf a => cases h
  | table entries =>
    cases h
    refine ⟨rfl, fun flag value hvalue => ?_⟩
    rw [Nested.at?_table_cons] at hvalue
    obtain ⟨t, ht, hvalue⟩ := Option.bind_eq_some_iff.mp hvalue
    simp only [Nested.at?_nil, Option.some.injEq] at hvalue
    subst hvalue
    cases flag <;> simp_all [Flag.key, Flag.get, Flag.default]

/-- The first server of a name comes from the first entry of that name. -/
theorem find?_mapM_serverFromConfig {serversDict : Table String Scalar}
    {servers : List ServerConfig}
    (h : serversDict.mapM (fun entry => serverFromConfig str entry.1 entry.2) = .ok servers)
    {name : String} {server : ServerConfig}
    (hserver : servers.find? (fun s => s.name = name) = some server) :
    ∃ srvCfg, serversDict.lookup name = some srvCfg ∧
      serverFromConfig str name srvCfg = .ok server := by
  induction serversDict generalizing servers with
  | nil =>
    cases h
    cases hserver
  | cons entry rest ih =>
    obtain ⟨key, srvCfg⟩ := entry
    rw [List.mapM_cons] at h
    cases hfirst : serverFromConfig str key srvCfg with
    | error e =>
      rw [hfirst] at h
      cases h
    | ok first =>
      cases hrest : rest.mapM (fun entry => serverFromConfig str entry.1 entry.2) with
      | error e =>
        rw [hfirst, hrest] at h
        cases h
      | ok others =>
        rw [hfirst, hrest] at h
        cases h
        have hname := (serverFromConfig_ok hfirst).1
        rw [lookup_cons_eq_if]
        rw [List.find?_cons, hname] at hserver
        by_cases hkey : key = name
        · subst hkey
          simp only [decide_true, Option.some.injEq] at hserver
          subst hserver
          exact ⟨srvCfg, by simp, hfirst⟩
        · simp only [hkey, decide_false] at hserver
          obtain ⟨srvCfg', hlookup, hserver'⟩ := ih hrest hserver
          exact ⟨srvCfg', by simpa [Ne.symm hkey] using hlookup, hserver'⟩

/-- A flag that is in the configuration is read with `asBool`. -/
theorem serversFromConfig_flag {config : Table String Scalar} {servers : List ServerConfig}
    (h : serversFromConfig str config = .ok servers) {name : String} {server : ServerConfig}
    (hserver : servers.find? (fun s => s.name = name) = some server) {flag : Flag} {value : Value}
    (hvalue : (Nested.table config).at? ["backup", "servers", name, flag.key] = some value) :
    flag.get server = asBool value flag.default := by
  obtain ⟨backup, hbackup, hvalue⟩ := Option.bind_eq_some_iff.mp hvalue
  cases backup with
  | leaf a => cases hvalue
  | table backup =>
    obtain ⟨serversDict, hdict, hvalue⟩ := Option.bind_eq_some_iff.mp hvalue
    cases serversDict with
    | leaf a => cases hvalue
    | table serversDict =>
      obtain ⟨srvCfg, hcfg, hvalue⟩ := Option.bind_eq_some_iff.mp hvalue
      rw [serversFromConfig, hbackup] at h
      simp only [Option.getD_some, asTable, bind, Except.bind, hdict] at h
      cases hservers : serversDict.mapM fun entry => serverFromConfig str entry.1 entry.2 with
      | error e =>
        rw [hservers] at h
        cases h
      | ok unsorted =>
        rw [hservers] at h
        cases h
        rw [find?_insertionSort (fun s : ServerConfig => s.name)] at hserver
        obtain ⟨srvCfg', hcfg', hfrom⟩ := find?_mapM_serverFromConfig hservers hserver
        obtain rfl : srvCfg' = srvCfg := Option.some.inj (hcfg'.symm.trans hcfg)
        exact (serverFromConfig_ok hfrom).2 flag value hvalue

end Servers

end SrvBackup.Adapters
