import SrvBackup.Domain.Models
import SrvBackup.Text.Order

/-!
# File names and reports

The names of archives and package lists embed the server and a timestamp of fixed width.
`buildTimestamp_lt_iff` is the fact that retention relies on: from the year 1000 on, timestamps
sort as text the way the clock readings sort down to the second.
-/
namespace SrvBackup.Domain

open SrvBackup.Text

/-- Two decimal digits, as `%m`, `%d`, `%H`, `%M` and `%S` write them. -/
def pad2 (n : Nat) : String := if n < 10 then "0" ++ toString n else toString n

/-- `strftime("%Y-%m-%d_%H-%M-%S")`; `%Y` is not padded. -/
def buildTimestamp (now : DateTime) : String :=
  toString now.year ++ "-" ++ pad2 now.month ++ "-" ++ pad2 now.day ++ "_" ++
    pad2 now.hour ++ "-" ++ pad2 now.minute ++ "-" ++ pad2 now.second

def buildConfigFilename (server timestamp : String) : String :=
  "backup_config_" ++ server ++ "_" ++ timestamp ++ ".tar.gz"

def buildPackagesFilename (server timestamp suffix : String) : String :=
  "packages_" ++ suffix ++ "_" ++ server ++ "_" ++ timestamp ++ ".txt"

def buildSnapshotFilename (server pool timestamp : String) : String :=
  pool ++ "_snapshot_" ++ server ++ "_" ++ timestamp ++ ".zfs.gz"

def buildSnapshotTag (timestamp : String) : String := "pull_backup_" ++ timestamp

/-- `f"{x:.1f}"`: one decimal, ties to even. -/
def fixed1 (x : ℚ) : String :=
  let scaled := (if x < 0 then -x else x) * 10
  let low := scaled.floor
  let rest := scaled - low
  let tenths := if rest < 1 / 2 ∨ (rest = 1 / 2 ∧ low % 2 = 0) then low else low + 1
  (if x < 0 then "-" else "") ++ toString (tenths / 10) ++ "." ++ toString (tenths % 10)

/-- The lines the report has for one result. -/
def reportEntry (result : BackupResult) : List String :=
  let status := if !result.hasErrors then "OK" else "FAILED"
  ["  " ++ result.server ++ ": " ++ status ++ " (" ++ fixed1 result.durationSeconds ++ "s)"]
    ++ (if result.configSkipped then ["    config: skipped (disabled)"] else [])
    ++ (if result.configError ≠ "" then ["    config error: " ++ result.configError] else [])
    ++ (if result.zfsSkipped then ["    zfs: skipped (disabled)"] else [])
    ++ (if result.zfsError ≠ "" then ["    zfs error: " ++ result.zfsError] else [])

def reportHeader (summary : BackupSummary) : List String :=
  ["Backup completed in " ++ fixed1 summary.totalDurationSeconds ++ "s",
   "Servers: " ++ toString summary.results.length ++ " total, " ++
     toString summary.failedServers.length ++ " failed",
   ""]

def buildSummaryReport (summary : BackupSummary) : String :=
  "\n".intercalate (reportHeader summary ++ summary.results.flatMap reportEntry)

def buildSummarySubject (summary : BackupSummary) : String :=
  if summary.allOk then "[OK] Proxmox Backup Summary"
  else if summary.failedServers.length = summary.results.length then
    "[ERROR] Proxmox Backup Summary"
  else "[WARNING] Proxmox Backup Summary"

/-! ## Timestamps -/

theorem toList_pad2 {n : Nat} (hn : n < 100) : (pad2 n).toList = fixedDigits 2 n := by
  unfold pad2
  split
  · next h =>
    have hone : Nat.toDigits 10 n = fixedDigits 1 n := by
      simp [Nat.toDigits_of_lt_base h, fixedDigits, Nat.mod_eq_of_lt h]
    simp [toString, Nat.toList_repr, hone, fixedDigits, Nat.div_eq_of_lt h]
  · next h =>
    simpa [toString, Nat.toList_repr] using toDigits_eq_fixedDigits (w := 1) (by omega) hn

/-- The fields of a timestamp, each at its width. -/
theorem toList_buildTimestamp {t : DateTime} (ht : 1000 ≤ t.year) :
    (buildTimestamp t).toList =
      fixedDigits 4 t.year ++ ('-' :: (fixedDigits 2 t.month ++ ('-' :: (fixedDigits 2 t.day ++
        ('_' :: (fixedDigits 2 t.hour ++ ('-' :: (fixedDigits 2 t.minute ++
          ('-' :: fixedDigits 2 t.second))))))))) := by
  have hyear := toDigits_eq_fixedDigits (w := 3) ht (by have := t.year_valid; omega)
  have hmonth := toList_pad2 (n := t.month) (by have := t.month_valid; omega)
  have hday := toList_pad2 (n := t.day) (by have := t.day_valid; omega)
  have hhour := toList_pad2 (n := t.hour) (by have := t.hour_valid; omega)
  have hminute := toList_pad2 (n := t.minute) (by have := t.minute_valid; omega)
  have hsecond := toList_pad2 (n := t.second) (by have := t.second_valid; omega)
  simp [buildTimestamp, hyear, hmonth, hday, hhour, hminute, hsecond]

theorem length_buildTimestamp {t : DateTime} (ht : 1000 ≤ t.year) :
    (buildTimestamp t).toList.length = 19 := by
  simp [toList_buildTimestamp ht]

/-- Text order of timestamps is the order of the readings down to the second. -/
theorem buildTimestamp_lt_iff {t u : DateTime} (ht : 1000 ≤ t.year) (hu : 1000 ≤ u.year) :
    buildTimestamp t < buildTimestamp u ↔ t.toSecond < u.toSecond := by
  have field : ∀ {w m n : Nat} (_ : m < 10 ^ w) (_ : n < 10 ^ w) (c : Char) (b b' : List Char),
      fixedDigits w m ++ c :: b < fixedDigits w n ++ c :: b' ↔ m < n ∨ m = n ∧ b < b' := by
    intro w m n hm hn c b b'
    rw [lex_append_iff (by simp), fixedDigits_lt_iff hm hn, fixedDigits_inj hm hn]
    simp
  have := t.year_valid; have := u.year_valid
  have := t.month_valid; have := u.month_valid
  have := t.day_valid; have := u.day_valid
  have := t.hour_valid; have := u.hour_valid
  have := t.minute_valid; have := u.minute_valid
  have := t.second_valid; have := u.second_valid
  rw [String.lt_iff_toList_lt, toList_buildTimestamp ht, toList_buildTimestamp hu,
    field (by omega) (by omega), field (by omega) (by omega), field (by omega) (by omega),
    field (by omega) (by omega), field (by omega) (by omega),
    fixedDigits_lt_iff (by omega) (by omega)]
  simp [DateTime.toSecond, List.cons_lt_cons_iff]

/-- Timestamps that agree are of the same second. -/
theorem toSecond_eq_of_buildTimestamp_eq {t u : DateTime}
    (h : buildTimestamp t = buildTimestamp u) : t.toSecond = u.toSecond := by
  have field : ∀ {m n : Nat} (_ : m < 100) (_ : n < 100) (b b' : List Char),
      (pad2 m).toList ++ b = (pad2 n).toList ++ b' → m = n ∧ b = b' := by
    intro m n hm hn b b' heq
    rw [toList_pad2 hm, toList_pad2 hn] at heq
    obtain ⟨hfield, hrest⟩ := List.append_inj heq (by simp)
    exact ⟨(fixedDigits_inj hm hn).mp hfield, hrest⟩
  have hyear : ∀ n : Nat, '-' ∉ (toString n).toList := by
    intro n hn
    have hdigit := Nat.isDigit_of_mem_toDigits (b := 10) (by decide) (by decide)
      (by simpa using hn : '-' ∈ Nat.toDigits 10 n)
    exact absurd hdigit (by decide)
  have hlists := congrArg String.toList h
  simp only [buildTimestamp, String.toList_append, List.append_assoc] at hlists
  obtain ⟨hy, hlists⟩ := (append_sep_inj (hyear t.year) (hyear u.year)).mp hlists
  have := t.month_valid; have := u.month_valid
  have := t.day_valid; have := u.day_valid
  have := t.hour_valid; have := u.hour_valid
  have := t.minute_valid; have := u.minute_valid
  have := t.second_valid; have := u.second_valid
  obtain ⟨hmonth, hlists⟩ := field (by omega) (by omega) _ _ hlists
  obtain ⟨hday, hlists⟩ := field (by omega) (by omega) _ _ (List.append_cancel_left hlists)
  obtain ⟨hhour, hlists⟩ := field (by omega) (by omega) _ _ (List.append_cancel_left hlists)
  obtain ⟨hminute, hlists⟩ := field (by omega) (by omega) _ _ (List.append_cancel_left hlists)
  have hlists := List.append_cancel_left hlists
  have hsecond := (field (m := t.second) (n := u.second) (by omega) (by omega) [] []
    (by rw [hlists])).1
  have hy := congrArg (Nat.ofDigitChars 10 · 0) hy
  simp only [Nat.toString_eq_repr, Nat.toList_repr, Nat.ofDigitChars_ten_toDigits] at hy
  simp only [DateTime.toSecond, *]

/-- The characters of a timestamp are digits, dashes and the underscore. -/
theorem forall_mem_buildTimestamp {P : Char → Prop} (hdigit : ∀ c, c.isDigit → P c)
    (hdash : P '-') (hunderscore : P '_') (t : DateTime) :
    ∀ c ∈ (buildTimestamp t).toList, P c := by
  have hdigits : ∀ n, ∀ c ∈ Nat.toDigits 10 n, P c := fun n c hc =>
    hdigit c (Nat.isDigit_of_mem_toDigits (by decide) (by decide) hc)
  have hpad : ∀ n, ∀ c ∈ (pad2 n).toList, P c := by
    intro n c hc
    unfold pad2 at hc
    split at hc
    · rw [String.toList_append] at hc
      rcases List.mem_append.mp hc with hc | hc
      · rw [List.mem_singleton.mp hc]
        exact hdigit '0' (by decide)
      · exact hdigits n c (by simpa using hc)
    · exact hdigits n c (by simpa using hc)
  intro c hc
  simp only [buildTimestamp, String.toList_append, List.mem_append, Nat.toString_eq_repr,
    Nat.toList_repr] at hc
  rcases hc with ((((((((((hc | hc) | hc) | hc) | hc) | hc) | hc) | hc) | hc) | hc) | hc)
  · exact hdigits _ c hc
  all_goals first
    | exact hpad _ c hc
    | exact (List.mem_singleton.mp hc) ▸ hdash
    | exact (List.mem_singleton.mp hc) ▸ hunderscore

theorem slash_notMem_buildTimestamp (t : DateTime) : '/' ∉ (buildTimestamp t).toList := by
  intro h
  refine forall_mem_buildTimestamp (P := fun c => c ≠ '/') ?_ (by decide) (by decide) t _ h rfl
  rintro c hc rfl
  exact absurd hc (by decide)

/-! ## Names with a timestamp

The three file names are a text before the timestamp and one after it. -/

/-- `pre` and `post` around a timestamp. -/
def stamped (pre post timestamp : String) : String := pre ++ timestamp ++ post

theorem stamped_lt_iff (pre post : String) {t u : DateTime} (ht : 1000 ≤ t.year)
    (hu : 1000 ≤ u.year) :
    stamped pre post (buildTimestamp t) < stamped pre post (buildTimestamp u) ↔
      t.toSecond < u.toSecond := by
  have hlen : (buildTimestamp t).toList.length = (buildTimestamp u).toList.length := by
    rw [length_buildTimestamp ht, length_buildTimestamp hu]
  rw [← buildTimestamp_lt_iff ht hu, String.lt_iff_toList_lt, String.lt_iff_toList_lt]
  simp only [stamped, String.toList_append, List.append_assoc]
  rw [lex_append_left_iff, lex_append_right_iff hlen]

/-- The end of a name and its timestamp determine each other. -/
theorem timestamp_eq_of_stamped_eq {pre pre' post : String} {t u : DateTime}
    (ht : 1000 ≤ t.year) (hu : 1000 ≤ u.year)
    (h : stamped pre post (buildTimestamp t) = stamped pre' post (buildTimestamp u)) :
    buildTimestamp t = buildTimestamp u := by
  have hlists := congrArg String.toList h
  simp only [stamped, String.toList_append] at hlists
  have hfront := List.append_cancel_right hlists
  have hlen : (buildTimestamp t).toList.length = (buildTimestamp u).toList.length := by
    rw [length_buildTimestamp ht, length_buildTimestamp hu]
  exact String.toList_inj.mp (List.append_inj_right' hfront hlen)

theorem slash_notMem_stamped {pre post : String} (hpre : '/' ∉ pre.toList)
    (hpost : '/' ∉ post.toList) (t : DateTime) :
    '/' ∉ (stamped pre post (buildTimestamp t)).toList := by
  simp [stamped, hpre, hpost, slash_notMem_buildTimestamp]

example : buildConfigFilename "px01" (buildTimestamp ⟨2026, 3, 23, 4, 30, 0, 0, by decide,
    by decide, by decide, by decide, by decide, by decide, by decide⟩) =
    "backup_config_px01_2026-03-23_04-30-00.tar.gz" := by decide

end SrvBackup.Domain
