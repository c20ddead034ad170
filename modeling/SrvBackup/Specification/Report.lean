import SrvBackup.Specification.Summary

/-!
# The report of a pool

What the lines of a server's entry say is decided by its result (`skipped_line_iff`,
`error_line_iff`, `marked_iff`). `EntryTruthful` compares them with what ran, and
`report_truthful_iff` has the exact condition for all entries of a summary.
-/
namespace SrvBackup.Specification

open SrvBackup.Domain SrvBackup.Effects SrvBackup.Adapters

/-- Texts that begin differently are different. -/
theorem append_ne_append {a b : String} (hab : ¬ a.toList <+: b.toList)
    (hba : ¬ b.toList <+: a.toList) (s t : String) : a ++ s ≠ b ++ t := by
  intro h
  have hlists := congrArg String.toList h
  simp only [String.toList_append] at hlists
  rcases List.prefix_or_prefix_of_prefix (hlists ▸ List.prefix_append a.toList s.toList)
    (List.prefix_append b.toList t.toList) with h | h
  · exact hab h
  · exact hba h

/-- The two kinds of backup that a report has lines about. -/
inductive BackupKind where
  | config
  | zfs

namespace BackupKind

def skippedLine : BackupKind → String
  | .config => "    config: skipped (disabled)"
  | .zfs => "    zfs: skipped (disabled)"

def errorLine : BackupKind → String → String
  | .config, text => "    config error: " ++ text
  | .zfs, text => "    zfs error: " ++ text

def attempts (types : BackupType) (server : ServerConfig) : BackupKind → Bool
  | .config => attemptsConfig types server
  | .zfs => attemptsZfs types server

def wanted (types : BackupType) : BackupKind → Bool
  | .config => wantConfig types
  | .zfs => wantZfs types

def enabled (server : ServerConfig) : BackupKind → Bool
  | .config => server.backupConfigfiles
  | .zfs => server.backupSnapshot

def outcome (o : StepOutcomes) : BackupKind → Except Error Unit
  | .config => o.config
  | .zfs => o.zfs

def skipped (r : BackupResult) : BackupKind → Bool
  | .config => r.configSkipped
  | .zfs => r.zfsSkipped

def error (r : BackupResult) : BackupKind → String
  | .config => r.configError
  | .zfs => r.zfsError

theorem attempts_eq (types : BackupType) (server : ServerConfig) (kind : BackupKind) :
    kind.attempts types server = (kind.wanted types && kind.enabled server) := by
  cases kind <;> rfl

end BackupKind

/-- The entry is marked FAILED. -/
def Marked (name : String) (entry : List String) : Prop :=
  ∃ line ∈ entry.head?, ("  " ++ name ++ ": FAILED (").toList <+: line.toList

instance (name : String) (entry : List String) : Decidable (Marked name entry) := by
  unfold Marked; infer_instance

/-- Below its first line, the entry has an error line of this kind. -/
def HasErrorLine (kind : BackupKind) (entry : List String) : Prop :=
  ∃ text, kind.errorLine text ∈ entry.tail

/-! ## What the lines say -/

section Lines

variable (r : BackupResult) (kind : BackupKind)

theorem mem_tail_reportEntry (line : String) : line ∈ (reportEntry r).tail ↔
    ∃ kind : BackupKind, (kind.skipped r ∧ line = kind.skippedLine) ∨
      (kind.error r ≠ "" ∧ line = kind.errorLine (kind.error r)) := by
  have htail : (reportEntry r).tail =
      (if r.configSkipped then [BackupKind.config.skippedLine] else []) ++
      (if r.configError ≠ "" then [BackupKind.config.errorLine r.configError] else []) ++
      (if r.zfsSkipped then [BackupKind.zfs.skippedLine] else []) ++
      (if r.zfsError ≠ "" then [BackupKind.zfs.errorLine r.zfsError] else []) := by
    simp only [reportEntry, List.append_assoc]
    rfl
  simp only [htail, List.mem_append, List.mem_ite_nil_right, List.mem_singleton]
  constructor
  · rintro (((h | h) | h) | h)
    · exact ⟨.config, .inl h⟩
    · exact ⟨.config, .inr h⟩
    · exact ⟨.zfs, .inl h⟩
    · exact ⟨.zfs, .inr h⟩
  · rintro ⟨_ | _, h | h⟩
    · exact .inl (.inl (.inl h))
    · exact .inl (.inl (.inr h))
    · exact .inl (.inr h)
    · exact .inr h

theorem skippedLine_ne_errorLine (kind kind' : BackupKind) (text : String) :
    kind.skippedLine ≠ kind'.errorLine text := by
  rw [← String.append_empty (s := kind.skippedLine)]
  cases kind <;> cases kind' <;> exact append_ne_append (by decide) (by decide) _ _

theorem skipped_line_iff : kind.skippedLine ∈ (reportEntry r).tail ↔ kind.skipped r := by
  rw [mem_tail_reportEntry]
  constructor
  · rintro ⟨kind', ⟨h, heq⟩ | ⟨-, heq⟩⟩
    · cases kind <;> cases kind' <;> first | exact h | exact absurd heq (by decide)
    · exact absurd heq (skippedLine_ne_errorLine _ _ _)
  · exact fun h => ⟨kind, .inl ⟨h, rfl⟩⟩

theorem error_line_iff : HasErrorLine kind (reportEntry r) ↔ kind.error r ≠ "" := by
  simp only [HasErrorLine, mem_tail_reportEntry]
  constructor
  · rintro ⟨text, kind', ⟨-, heq⟩ | ⟨h, heq⟩⟩
    · exact absurd heq.symm (skippedLine_ne_errorLine _ _ _)
    · cases kind <;> cases kind' <;>
        first | exact h | exact absurd heq (append_ne_append (by decide) (by decide) _ _)
  · exact fun h => ⟨_, kind, .inr ⟨h, rfl⟩⟩

theorem marked_iff : Marked r.server (reportEntry r) ↔ r.hasErrors := by
  have hhead : (reportEntry r).head? = some ("  " ++ r.server ++ ": " ++
      (if !r.hasErrors then "OK" else "FAILED") ++ " (" ++ fixed1 r.durationSeconds ++ "s)") := rfl
  simp only [Marked, hhead, Option.mem_def, Option.some.injEq, exists_eq_left',
    String.toList_append, List.append_assoc, List.prefix_append_right_inj]
  cases r.hasErrors
  · refine iff_of_false (fun ⟨rest, h⟩ => ?_) (by decide)
    have hstatus : some 'F' = some 'O' := congrArg (·[2]?) h
    exact absurd hstatus (by decide)
  · exact iff_of_true (List.prefix_append _ _) rfl

end Lines

/-! ## What ran -/

/-- The entry tells what ran: a kind has a skipped line exactly if it was not attempted, an error
line exactly if it was attempted and raised, and the mark says if there is an error line. -/
structure EntryTruthful (config : Except Error BackupSettings) (types : BackupType)
    (server : ServerConfig) (o : StepOutcomes) (entry : List String) : Prop where
  skipped : ∀ kind : BackupKind, kind.skippedLine ∈ entry.tail ↔
    ¬ ((∃ settings, config = .ok settings) ∧ kind.attempts types server)
  error : ∀ kind : BackupKind, HasErrorLine kind entry ↔
    (∃ settings, config = .ok settings) ∧ kind.attempts types server ∧
      ∃ e, kind.outcome o = .error e
  marked : Marked server.name entry ↔ ∃ kind, HasErrorLine kind entry

/-- The configuration can be read, and each enabled kind is wanted and raises nothing without a
text. -/
def Accountable (config : Except Error BackupSettings) (types : BackupType) (server : ServerConfig)
    (o : StepOutcomes) : Prop :=
  (∃ settings, config = .ok settings) ∧ ∀ kind : BackupKind, kind.enabled server →
    kind.wanted types ∧ ∀ e, kind.outcome o = .error e → e.str ≠ ""

theorem expectedResult_kind (settings : BackupSettings) (types : BackupType)
    (server : ServerConfig) (o : StepOutcomes) (kind : BackupKind) :
    kind.skipped (expectedResult (.ok settings) types server o) =
        (verdictOf (kind.attempts types server) (kind.enabled server) (kind.outcome o)).skipped ∧
      kind.error (expectedResult (.ok settings) types server o) =
        (verdictOf (kind.attempts types server) (kind.enabled server) (kind.outcome o)).error := by
  cases kind <;> exact ⟨rfl, rfl⟩

/-- What is noted down about one kind is right under the same condition. -/
theorem verdictOf_truthful_iff (wanted enabled : Bool) (r : Except Error Unit) :
    ((verdictOf (wanted && enabled) enabled r).skipped ↔ ¬ (wanted && enabled)) ∧
        ((verdictOf (wanted && enabled) enabled r).error ≠ "" ↔
          (wanted && enabled) ∧ ∃ e, r = .error e) ↔
      (enabled → wanted ∧ ∀ e, r = .error e → e.str ≠ "") := by
  cases wanted <;> cases enabled <;> cases r <;> simp [verdictOf]

theorem entryTruthful_iff (config : Except Error BackupSettings) (types : BackupType)
    (server : ServerConfig) (o : StepOutcomes) {r : BackupResult}
    (hr : sansDuration r = expectedResult config types server o) :
    EntryTruthful config types server o (reportEntry r) ↔ Accountable config types server o := by
  have hskipped : ∀ kind : BackupKind, kind.skipped r =
      kind.skipped (expectedResult config types server o) := by
    rintro (_ | _) <;> rw [← hr] <;> rfl
  have herror : ∀ kind : BackupKind, kind.error r =
      kind.error (expectedResult config types server o) := by
    rintro (_ | _) <;> rw [← hr] <;> rfl
  have hname : r.server = server.name := by
    rw [← server_sansDuration, hr]
    cases config <;> rfl
  cases config with
  | error e =>
    refine iff_of_false (fun h => ?_) (by simp [Accountable])
    have hline := (h.skipped .config).mpr (by simp)
    rw [skipped_line_iff, hskipped] at hline
    cases hline
  | ok settings =>
    have hkind : ∀ kind : BackupKind,
        (kind.skippedLine ∈ (reportEntry r).tail ↔ ¬ kind.attempts types server) ∧
            (HasErrorLine kind (reportEntry r) ↔
              kind.attempts types server ∧ ∃ e, kind.outcome o = .error e) ↔
          (kind.enabled server →
            kind.wanted types ∧ ∀ e, kind.outcome o = .error e → e.str ≠ "") := by
      intro kind
      obtain ⟨hs, he⟩ := expectedResult_kind settings types server o kind
      rw [skipped_line_iff, error_line_iff, hskipped, herror, hs, he, kind.attempts_eq]
      exact verdictOf_truthful_iff _ _ _
    have hsettings : (∃ s, (Except.ok settings : Except Error BackupSettings) = .ok s) := ⟨_, rfl⟩
    constructor
    · refine fun h => ⟨hsettings, fun kind => (hkind kind).mp ⟨?_, ?_⟩⟩
      · simpa [hsettings] using h.skipped kind
      · simpa [hsettings] using h.error kind
    · rintro ⟨-, h⟩
      have hboth := fun kind => (hkind kind).mpr (h kind)
      refine ⟨fun kind => by simpa [hsettings] using (hboth kind).1,
        fun kind => by simpa [hsettings] using (hboth kind).2, ?_⟩
      rw [← hname, marked_iff, ← hasErrors_sansDuration, hr, hasErrors_expectedResult]
      constructor
      · rintro (⟨e, he⟩ | ⟨hattempt, hraise⟩ | ⟨hattempt, hraise⟩)
        · cases he
        · exact ⟨.config, (hboth .config).2.mpr ⟨hattempt, hraise⟩⟩
        · exact ⟨.zfs, (hboth .zfs).2.mpr ⟨hattempt, hraise⟩⟩
      · rintro ⟨kind, hline⟩
        obtain ⟨hattempt, hraise⟩ := (hboth kind).2.mp hline
        cases kind
        · exact .inr (.inl ⟨hattempt, hraise⟩)
        · exact .inr (.inr ⟨hattempt, hraise⟩)

/-- The report of a run accounts for what ran: it has one entry for each server, every entry is
truthful, and the header counts the marked entries. -/
structure ReportTruthful {servers : List ServerConfig} {config : Except Error BackupSettings}
    {types : BackupType} {dryRun : Bool} {outcome : Fin servers.length → StepOutcomes}
    (run : BackupRun servers config types dryRun outcome) : Prop where
  listed : ∃ entries : List (List String),
    entries.Perm ((List.finRange servers.length).map fun i => reportEntry (run.result i)) ∧
      buildSummaryReport run.summary =
        "\n".intercalate (reportHeader run.summary ++ entries.flatten)
  entries : ∀ i, EntryTruthful config types (servers.get i) (outcome i) (reportEntry (run.result i))
  count : "Servers: " ++ toString servers.length ++ " total, " ++
    toString ((List.finRange servers.length).countP fun i =>
      Marked (servers.get i).name (reportEntry (run.result i))) ++ " failed" ∈
    reportHeader run.summary

/-- The count of the header is always right. -/
theorem header_counts_marked {servers : List ServerConfig} {config : Except Error BackupSettings}
    {types : BackupType} {dryRun : Bool} {outcome : Fin servers.length → StepOutcomes}
    (run : BackupRun servers config types dryRun outcome) :
    "Servers: " ++ toString servers.length ++ " total, " ++
      toString ((List.finRange servers.length).countP fun i =>
        Marked (servers.get i).name (reportEntry (run.result i))) ++ " failed" ∈
      reportHeader run.summary := by
  have htotal : run.summary.results.length = servers.length := by
    rw [run.results_perm.length_eq, List.length_map, List.length_finRange]
  have hfailed : run.summary.failedServers.length = (List.finRange servers.length).countP fun i =>
      Marked (servers.get i).name (reportEntry (run.result i)) := by
    rw [BackupSummary.failedServers, ← List.countP_eq_length_filter, run.results_perm.countP_eq,
      List.countP_map]
    refine List.countP_congr fun i _ => ?_
    have hmarked := marked_iff (run.result i)
    rw [run.server_result] at hmarked
    simpa using hmarked.symm
  rw [← hfailed]
  simp [reportHeader, htotal]

/-- The report of a run accounts for what ran exactly if, for every server, each enabled kind is
wanted and raises nothing without a text. -/
theorem report_truthful_iff {servers : List ServerConfig} {config : Except Error BackupSettings}
    {types : BackupType} {dryRun : Bool} {outcome : Fin servers.length → StepOutcomes}
    (run : BackupRun servers config types dryRun outcome) :
    ReportTruthful run ↔ ∀ i, Accountable config types (servers.get i) (outcome i) := by
  have hentry := fun i => entryTruthful_iff config types (servers.get i) (outcome i)
    (run.sansDuration_result i)
  refine ⟨fun h i => (hentry i).mp (h.entries i), fun h =>
    ⟨⟨run.summary.results.map reportEntry, ?_, rfl⟩, fun i => (hentry i).mpr (h i),
      header_counts_marked run⟩⟩
  have hentries := run.results_perm.map reportEntry
  rwa [List.map_map] at hentries

/-! One server and two runs: one with `--type config`, and one whose configuration step raises an
exception without a text. -/

def soloFinal (types : BackupType) (o : StepOutcomes) :
    Option (Pool Sys Error BackupResult (Machine 1) 1) :=
  Pool.follow (poolHandler fun _ => sampleEnv (.ok ⟨0, [31], ""⟩)) 1
    (Pool.initial (fun i => backupServer (outcomeSteps o) ([sampleServer].get i)
      (.ok sampleSettings) types false) ⟨∅, fun _ => []⟩) (oneByOne 1)

def soloBackup (types : BackupType) (o : StepOutcomes) (hsome : (soloFinal types o).isSome)
    (hdone : ((soloFinal types o).get hsome).Complete) :
    BackupRun [sampleServer] (.ok sampleSettings) types false fun _ => o where
  State := Machine 1
  handler := poolHandler fun _ => sampleEnv (.ok ⟨0, [31], ""⟩)
  start := ⟨∅, fun _ => []⟩
  width := 1
  final := (soloFinal types o).get hsome
  reached := Pool.reaches_of_follow (Option.some_get hsome).symm
  complete := hdone
  order := List.finRange 1
  order_perm := .refl _
  totalDuration := 0

def filteredBackup := soloBackup .config ⟨.ok (), .ok (), .ok ()⟩ (by decide +kernel)
  (by decide +kernel)

def silentBackup := soloBackup .all ⟨.error (.other ""), .ok (), .ok ()⟩ (by decide +kernel)
  (by decide +kernel)

/-- The kind that was filtered out has no skipped line, and the exception without a text no error
line. -/
theorem report_hides_what_ran :
    ¬ ReportTruthful filteredBackup ∧ ¬ ReportTruthful silentBackup := by
  constructor
  · intro h
    have hline := ((h.entries (0 : Fin 1)).skipped .zfs).mpr fun hattempt =>
      absurd hattempt.2 (by decide)
    exact absurd hline (by decide +kernel)
  · intro h
    obtain ⟨text, hline⟩ := ((h.entries (0 : Fin 1)).error .config).mpr
      ⟨⟨_, rfl⟩, by decide, _, rfl⟩
    have hnone : (reportEntry (silentBackup.result (0 : Fin 1))).tail = [] := by decide +kernel
    rw [hnone] at hline
    cases hline

end SrvBackup.Specification
