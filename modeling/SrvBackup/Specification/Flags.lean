import SrvBackup.Adapters.Servers

/-!
# Flags as text and as JSON

A flag of a server arrives as text from a quoted setting, and as `coerceValue` of the text from
`--set`. `flag_reads_same_iff` says which texts read the same both ways: those that are no JSON or a
JSON boolean, and of the others those whose reading as text happens to be the default.
-/
namespace SrvBackup.Specification

open SrvBackup.Domain SrvBackup.Storage SrvBackup.Text SrvBackup.Adapters

/-- The first character of a JSON text, by what it denotes. -/
def Begins (value : Value) (c : Char) : Prop :=
  match value with
  | .leaf .null => c = 'n'
  | .leaf (.bool b) => c = if b then 't' else 'f'
  | .leaf (.int _) | .leaf (.float _) => c.isDigit ∨ c = '-'
  | .leaf (.str _) => c = '"'
  | .leaf (.list _) => c = '['
  | .table _ => c = '{'

/-- What a JSON reader accepts, as far as it matters here: no empty text, a literal only as it is
spelt, everything else by its first character; blanks may stand around it. -/
structure JsonTexts (loads : String → Option Value) : Prop where
  empty : loads "" = none
  null : ∀ v, loads v = some (.leaf .null) → strip v = "null"
  bool : ∀ v b, loads v = some (.leaf (.bool b)) → strip v = if b then "true" else "false"
  begins : ∀ v value, loads v = some value →
    ∃ c, (strip v).toList.head? = some c ∧ Begins value c

/-- The texts that read the same as text and as JSON. -/
def ReadsSame (loads : String → Option Value) (default : Bool) (v : String) : Prop :=
  match loads v with
  | none => True
  | some (.leaf (.bool _)) => True
  | some (.leaf (.str s)) => ¬ Falsy s
  | some _ => default = !decide (strip v = "0")

/-- The configuration has the value for a flag of the server `name`, and `server` is what is read
from it. -/
structure Delivers (str : Value → String) (config : Table String Scalar) (name : String)
    (flag : Flag) (value : Value) (server : ServerConfig) : Prop where
  value_eq : (Nested.table config).at? ["backup", "servers", name, flag.key] = some value
  server_eq : ∃ servers, serversFromConfig str config = .ok servers ∧
    servers.find? (fun s => s.name = name) = some server

/-- Digits have no small letter. -/
theorem toLower_of_isDigit {c : Char} (h : c.isDigit) : c.toLower = c := by
  have hnine : c.val ≤ '9'.val := by
    simp only [Char.isDigit, Bool.and_eq_true, decide_eq_true_eq] at h
    exact h.2
  unfold Char.toLower
  rw [dif_neg]
  rintro ⟨hA, -⟩
  exact absurd (UInt32.le_trans hA hnine) (by decide)

theorem head_of_falsy {v : String} {c : Char} (h : Falsy v)
    (hc : (strip v).toList.head? = some c) : c.toLower ∈ ['f', '0', 'n', 'o'] := by
  have hhead : (lower (strip v)).toList.head? = some c.toLower := by
    simp [lower, hc]
  have hall : ∀ w ∈ falsyStrings, ∀ d ∈ w.toList.take 1, d ∈ ['f', '0', 'n', 'o'] := by decide
  obtain ⟨rest, hrest⟩ := List.head?_eq_some_iff.mp hhead
  exact hall _ h _ (by simp [hrest])

/-- Of the numbers only `0` reads as false. -/
theorem falsy_iff_zero {v : String} {c : Char} (hc : (strip v).toList.head? = some c)
    (hnumber : c.isDigit ∨ c = '-') : Falsy v ↔ strip v = "0" := by
  have hlower : c.toLower = c := by
    rcases hnumber with h | rfl
    · exact toLower_of_isDigit h
    · decide
  constructor
  · intro h
    have hhead : (lower (strip v)).toList.head? = some c := by
      simp [lower, hc, hlower]
    have hall : ∀ w ∈ falsyStrings, ∀ d ∈ w.toList.take 1, d.isDigit ∨ d = '-' → w = "0" := by
      decide
    obtain ⟨rest, hrest⟩ := List.head?_eq_some_iff.mp hhead
    have hzero := congrArg String.toList (hall _ h c (by simp [hrest]) hnumber)
    rw [← String.toList_inj]
    cases hs : (strip v).toList with
    | nil => simp [hs] at hc
    | cons d rest =>
      rw [hs, List.head?_cons, Option.some.injEq] at hc
      subst hc
      simpa [lower, hs, hlower] using hzero
  · intro h
    rw [Falsy, h]
    decide

theorem not_falsy_of_head {v : String} {c : Char} (hc : (strip v).toList.head? = some c)
    (hno : c.toLower ∉ ['f', '0', 'n', 'o']) : ¬ Falsy v :=
  fun h => hno (head_of_falsy h hc)

section

variable {loads : String → Option Value}

theorem asBool_coerceValue (hjson : JsonTexts loads) (v : String) (default : Bool) :
    asBool (coerceValue loads v) default =
      match loads v with
      | some value => asBool value default
      | none => !decide (Falsy v) := by
  unfold coerceValue
  split
  · next hempty =>
    rw [hempty, hjson.empty]
    rfl
  · cases loads v <;> rfl

theorem asBool_same_iff (hjson : JsonTexts loads) (v : String) (default : Bool) :
    asBool (.leaf (.str v)) default = asBool (coerceValue loads v) default ↔
      ReadsSame loads default v := by
  rw [asBool_coerceValue hjson, ReadsSame]
  change (!decide (Falsy v)) = _ ↔ _
  cases hv : loads v with
  | none => simp
  | some value =>
    obtain ⟨c, hc, hbegins⟩ := hjson.begins v value hv
    have hother : c.toLower ∉ ['f', '0', 'n', 'o'] →
        ((!decide (Falsy v)) = default ↔ default = !decide (strip v = "0")) := by
      intro hno
      have hfalsy := not_falsy_of_head hc hno
      have hne : strip v ≠ "0" := by
        intro heq
        rw [heq] at hc
        cases hc
        exact hno (by decide)
      simp [hfalsy, hne, eq_comm]
    cases value with
    | table es =>
      cases hbegins
      exact hother (by decide)
    | leaf a =>
      cases a with
      | null =>
        have hnull := hjson.null v hv
        have hfalsy : ¬ Falsy v := by
          rw [Falsy, hnull]
          decide
        have hne : strip v ≠ "0" := by
          rw [hnull]
          decide
        simp [asBool, hfalsy, hne, eq_comm]
      | bool b =>
        have hbool := hjson.bool v b hv
        have hfalsy : Falsy v ↔ b = false := by
          rw [Falsy, hbool]
          cases b <;> decide
        cases b <;> simp [asBool, hfalsy]
      | int i =>
        have hfalsy := falsy_iff_zero hc hbegins
        simp [asBool, hfalsy, eq_comm]
      | float x =>
        have hfalsy := falsy_iff_zero hc hbegins
        simp [asBool, hfalsy, eq_comm]
      | str s =>
        cases hbegins
        have hfalsy := not_falsy_of_head hc (by decide)
        simp [asBool, hfalsy]
      | list items =>
        cases hbegins
        exact hother (by decide)

/-- A flag reads the same as text and from `--set` exactly for the texts that `ReadsSame` names. -/
theorem flag_reads_same_iff (hjson : JsonTexts loads) (str : Value → String)
    {config config' : Table String Scalar} {name : String} {flag : Flag} {v : String}
    {server server' : ServerConfig} (h : Delivers str config name flag (.leaf (.str v)) server)
    (h' : Delivers str config' name flag (coerceValue loads v) server') :
    flag.get server = flag.get server' ↔ ReadsSame loads flag.default v := by
  obtain ⟨servers, hservers, hserver⟩ := h.server_eq
  obtain ⟨servers', hservers', hserver'⟩ := h'.server_eq
  rw [serversFromConfig_flag hservers hserver h.value_eq,
    serversFromConfig_flag hservers' hserver' h'.value_eq]
  exact asBool_same_iff hjson v flag.default

end

/-- A reader of the JSON texts `true` and `0`. -/
def flagLoads (raw : String) : Option Value :=
  if raw = "true" then some (.leaf (.bool true))
  else if raw = "0" then some (.leaf (.int 0)) else none

theorem flagLoads_some {v : String} {value : Value} (h : flagLoads v = some value) :
    v = "true" ∧ value = .leaf (.bool true) ∨ v = "0" ∧ value = .leaf (.int 0) := by
  unfold flagLoads at h
  split at h
  · next hv => exact .inl ⟨hv, (Option.some.inj h).symm⟩
  · split at h
    · next hv => exact .inr ⟨hv, (Option.some.inj h).symm⟩
    · cases h

theorem flagLoads_texts : JsonTexts flagLoads where
  empty := rfl
  null v h := by
    obtain ⟨-, hvalue⟩ | ⟨-, hvalue⟩ := flagLoads_some h <;> cases hvalue
  bool v b h := by
    obtain ⟨rfl, hvalue⟩ | ⟨-, hvalue⟩ := flagLoads_some h
    · cases hvalue
      decide
    · cases hvalue
  begins v value h := by
    obtain ⟨rfl, rfl⟩ | ⟨rfl, rfl⟩ := flagLoads_some h
    · exact ⟨'t', by decide, rfl⟩
    · exact ⟨'0', by decide, .inl (by decide)⟩

/-- One server with one flag. -/
def flagConfig (flag : Flag) (value : Value) : Table String Scalar :=
  [("backup", .table [("servers", .table [("px01", .table [(flag.key, value)])])])]

/-- `str` of a text. -/
def sampleStr : Value → String
  | .leaf (.str s) => s
  | _ => ""

theorem exists_delivers (flag : Flag) (value : Value) :
    ∃ server, Delivers sampleStr (flagConfig flag value) "px01" flag value server := by
  cases flag <;> exact ⟨_, rfl, _, rfl, rfl⟩

theorem flag_reads_same_sample : ∃ server server',
    Delivers sampleStr (flagConfig .isLocal (.leaf (.str "true"))) "px01" .isLocal
      (.leaf (.str "true")) server ∧
    Delivers sampleStr (flagConfig .isLocal (coerceValue flagLoads "true")) "px01" .isLocal
      (coerceValue flagLoads "true") server' ∧
    server.isLocal = server'.isLocal := by
  obtain ⟨server, h⟩ := exists_delivers .isLocal (.leaf (.str "true"))
  obtain ⟨server', h'⟩ := exists_delivers .isLocal (coerceValue flagLoads "true")
  exact ⟨server, server', h, h', (flag_reads_same_iff flagLoads_texts sampleStr h h').mpr trivial⟩

/-- `0` as text turns the snapshot backup off, `0` from `--set` leaves it on. -/
theorem zero_leaves_snapshot_on :
    JsonTexts flagLoads ∧ ∃ server server',
      Delivers sampleStr (flagConfig .backupSnapshot (.leaf (.str "0"))) "px01" .backupSnapshot
        (.leaf (.str "0")) server ∧
      Delivers sampleStr (flagConfig .backupSnapshot (coerceValue flagLoads "0")) "px01"
        .backupSnapshot (coerceValue flagLoads "0") server' ∧
      server.backupSnapshot = false ∧ server'.backupSnapshot = true := by
  refine ⟨flagLoads_texts, _, _, ⟨rfl, _, rfl, rfl⟩, ⟨rfl, _, rfl, rfl⟩, ?_, ?_⟩
  · decide
  · decide

end SrvBackup.Specification
