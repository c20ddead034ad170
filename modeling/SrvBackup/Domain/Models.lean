import Mathlib.Data.Rat.Defs
import Mathlib.Data.String.Basic
import Mathlib.Tactic.Common

/-!
# Domain values

Clock readings, errors, server configurations, backup types, results and summaries. A clock
reading carries its field bounds, so a reading that does not exist cannot be built; readings
and results are compared field by field.
-/
namespace SrvBackup.Domain

/-- A UTC clock reading, `datetime.now(tz=timezone.utc)`. -/
structure DateTime where
  year : Nat
  month : Nat
  day : Nat
  hour : Nat
  minute : Nat
  second : Nat
  microsecond : Nat
  year_valid : 1 ≤ year ∧ year ≤ 9999 := by decide
  month_valid : 1 ≤ month ∧ month ≤ 12 := by decide
  day_valid : 1 ≤ day ∧ day ≤ 31 := by decide
  hour_valid : hour < 24 := by decide
  minute_valid : minute < 60 := by decide
  second_valid : second < 60 := by decide
  microsecond_valid : microsecond < 1000000 := by decide
  deriving DecidableEq

namespace DateTime

/-- The fields down to the second, in the order in which readings are compared. -/
def toSecond (t : DateTime) : List Nat :=
  [t.year, t.month, t.day, t.hour, t.minute, t.second]

/-- `t` is an earlier reading than `u`. -/
def Before (t u : DateTime) : Prop :=
  t.toSecond ++ [t.microsecond] < u.toSecond ++ [u.microsecond]

instance (t u : DateTime) : Decidable (t.Before u) := by unfold Before; infer_instance

end DateTime

/-- An `OSError`; `notFound` marks `FileNotFoundError`. -/
structure OSError where
  text : String
  notFound : Bool := false
  deriving DecidableEq, Repr

/-- Exceptions by class, with their text `str(exc)`. -/
inductive Error where
  | sshConnection (text : String)
  | snapshot (text : String)
  | retention (text : String)
  | os (e : OSError)
  | other (text : String)
  deriving DecidableEq, Repr

/-- `str(exc)`. -/
def Error.str : Error → String
  | .sshConnection text | .snapshot text | .retention text | .other text => text
  | .os e => e.text

/-- Immutable configuration of one server. -/
structure ServerConfig where
  name : String
  hostname : String
  zfsPool : String
  isLocal : Bool := false
  backupConfigfiles : Bool := true
  backupSnapshot : Bool := true
  deriving DecidableEq, Repr

inductive BackupType where
  | config
  | zfs
  | all
  deriving DecidableEq, Repr

/-- Outcome of backing up one server; durations are exact seconds. -/
structure BackupResult where
  server : String
  configOk : Bool := false
  configError : String := ""
  configSkipped : Bool := false
  zfsOk : Bool := false
  zfsError : String := ""
  zfsSkipped : Bool := false
  durationSeconds : ℚ := 0
  deriving DecidableEq

/-- A backup type that was not skipped failed. -/
def BackupResult.hasErrors (r : BackupResult) : Bool :=
  let configFailed := !r.configOk && !r.configSkipped
  let zfsFailed := !r.zfsOk && !r.zfsSkipped
  configFailed || zfsFailed

structure BackupSummary where
  results : List BackupResult
  totalDurationSeconds : ℚ := 0
  deriving DecidableEq

def BackupSummary.allOk (s : BackupSummary) : Bool := s.results.all fun r => !r.hasErrors

def BackupSummary.failedServers (s : BackupSummary) : List BackupResult :=
  s.results.filter fun r => r.hasErrors

end SrvBackup.Domain
