import SrvBackup.Adapters.Overrides
import Mathlib.Data.List.AList

/-!
# Configurations with overrides

A configuration has its data and, for each leaf, where its value came from. `applyOverrides` merges
the nested overrides into the data, with `merge` for the library that does it, and names the command
line as the origin of the keys that were given.
-/
namespace SrvBackup.Adapters

open SrvBackup.Storage SrvBackup.Text

/-- Where a value came from. -/
structure SourceInfo where
  layer : String
  path : Option String
  key : String
  deriving DecidableEq, Repr

/-- Origins under the dotted keys of the leaves. -/
abbrev Provenance := AList fun _ : String => SourceInfo

structure Config where
  data : Table String Scalar
  provenance : Provenance

/-- `config.origin(dotted)`. -/
def Config.origin (config : Config) (dotted : String) : Option SourceInfo :=
  config.provenance.lookup dotted

/-- The layer of what came from `--set`. -/
def cliLayer : String := "cli"

mutual

/-- `_dotted_keys`: the leaves of a table in dotted form. -/
def dottedKeys (pre : String) (data : Table String Scalar) : List String :=
  match data with
  | [] => []
  | (key, value) :: rest => dottedKeysAt (pre ++ key) value ++ dottedKeys pre rest

def dottedKeysAt (path : String) (value : Value) : List String :=
  match value with
  | .leaf _ => [path]
  | .table es => dottedKeys (path ++ ".") es

end

/-- `_provenance_naming_the_cli`. -/
def provenanceNamingTheCli (config : Config) (mergedAsDict : Table String Scalar)
    (overridden : Finset String) : Provenance :=
  (dottedKeys "" mergedAsDict).foldl (fun provenance dotted =>
    if dotted ∈ overridden then provenance.insert dotted ⟨cliLayer, none, dotted⟩
    else match config.origin dotted with
      | some origin => provenance.insert dotted origin
      | none => provenance) ∅

def applyOverrides (loads : String → Option Value)
    (merge : Table String Scalar → Table String Scalar → Table String Scalar) (config : Config)
    (rawOverrides : List String) : Except Raised Config :=
  if rawOverrides = [] then .ok config
  else do
    let (overrides, overridden) ← nestOverrides loads rawOverrides
    let merged := merge config.data overrides
    pure ⟨merged, provenanceNamingTheCli config merged overridden⟩

/-! ## The walk over the leaves -/

theorem mem_dottedKeys_of_lookup {data : Table String Scalar} {k d pre : String} {v : Value}
    (hv : data.lookup k = some v) (hd : d ∈ dottedKeysAt (pre ++ k) v) :
    d ∈ dottedKeys pre data := by
  induction data with
  | nil => cases hv
  | cons e data ih =>
    obtain ⟨l, w⟩ := e
    rw [lookup_cons_eq_if] at hv
    rw [dottedKeys, List.mem_append]
    split at hv
    · next hk =>
      cases hv
      exact .inl (hk ▸ hd)
    · exact .inr (ih hv)

/-- Every leaf is walked under its dotted path. -/
theorem mem_dottedKeys {data : Table String Scalar} {p : List String} {a : Scalar}
    (h : (Nested.table data).at? p = some (.leaf a)) (pre : String) :
    pre ++ ".".intercalate p ∈ dottedKeys pre data := by
  induction p generalizing data pre with
  | nil => simp at h
  | cons k p ih =>
    rw [Nested.at?_table_cons] at h
    obtain ⟨v, hv, hp⟩ := Option.bind_eq_some_iff.mp h
    refine mem_dottedKeys_of_lookup hv ?_
    cases p with
    | nil =>
      simp only [Nested.at?_nil, Option.some.injEq] at hp
      subst hp
      simp [dottedKeysAt]
    | cons k' p =>
      cases v with
      | leaf b => cases hp
      | table es =>
        rw [dottedKeysAt, String.intercalate_cons_cons]
        simpa only [String.append_assoc] using ih hp (pre ++ k ++ ".")

theorem lookup_provenanceNamingTheCli (config : Config) (merged : Table String Scalar)
    (overridden : Finset String) (dotted : String) :
    (provenanceNamingTheCli config merged overridden).lookup dotted =
      if dotted ∈ dottedKeys "" merged then
        if dotted ∈ overridden then some ⟨cliLayer, none, dotted⟩ else config.origin dotted
      else none := by
  unfold provenanceNamingTheCli
  induction dottedKeys "" merged using List.reverseRecOn with
  | nil => rfl
  | append_singleton keys key ih =>
    rw [List.foldl_concat]
    by_cases hkey : dotted = key
    · subst hkey
      by_cases hover : dotted ∈ overridden
      · simp [hover]
      · cases horigin : config.origin dotted with
        | some origin => simp [hover]
        | none => simp [hover, ih, horigin]
    · have hmem : dotted ∈ keys ++ [key] ↔ dotted ∈ keys := by simp [hkey]
      simp only [hmem, ← ih]
      split
      · exact AList.lookup_insert_ne hkey
      · split
        · exact AList.lookup_insert_ne hkey
        · rfl

/-! ## Applying overrides -/

section Apply

variable {loads : String → Option Value}
  {merge : Table String Scalar → Table String Scalar → Table String Scalar} {config result : Config}
  {raws : List String}

/-- Overrides that are accepted parse, no path is above another, and the result is the merged data
with the relabelled provenance. -/
theorem applyOverrides_ok (h : applyOverrides loads merge config raws = .ok result) :
    (∀ raw ∈ raws, ∃ o, parseOverride loads raw = .ok o) ∧
      Table.Apart ((parsed loads raws).map ConfigOverride.path) ∧
      (raws = [] ∧ result = config ∨ ∃ es, Table.Holds (assignments (parsed loads raws)) es ∧
        result.data = merge config.data es ∧
        ∀ dotted, result.origin dotted =
          if dotted ∈ dottedKeys "" result.data then
            if dotted ∈ (parsed loads raws).map ConfigOverride.dottedKey then
              some ⟨cliLayer, none, dotted⟩
            else config.origin dotted
          else none) := by
  unfold applyOverrides at h
  split at h
  · next hnil =>
    cases h
    subst hnil
    refine ⟨by simp, ?_, .inl ⟨rfl, rfl⟩⟩
    intro p hp
    cases hp
  · cases hnest : nestOverrides loads raws with
    | error e =>
      rw [hnest] at h
      cases h
    | ok r =>
      have hparse := parses_of_nestOverrides hnest
      rcases nestOverrides_eq hparse with ⟨hapart, es, hes, hholds⟩ | ⟨-, key, nested, herror⟩
      · rw [hes] at h
        cases h
        refine ⟨hparse, hapart, .inr ⟨es, hholds, rfl, fun dotted => ?_⟩⟩
        rw [Config.origin, lookup_provenanceNamingTheCli]
        simp only [List.mem_toFinset]
      · rw [herror] at hnest
        cases hnest

/-- Overrides that parse and of which no path is above another are accepted. -/
theorem exists_applyOverrides (hparse : ∀ raw ∈ raws, ∃ o, parseOverride loads raw = .ok o)
    (hapart : Table.Apart ((parsed loads raws).map ConfigOverride.path)) :
    ∃ result, applyOverrides loads merge config raws = .ok result := by
  unfold applyOverrides
  split
  · exact ⟨config, rfl⟩
  · rcases nestOverrides_eq hparse with ⟨-, es, hes, -⟩ | ⟨hno, -⟩
    · rw [hes]
      exact ⟨_, rfl⟩
    · exact absurd hapart hno

end Apply

end SrvBackup.Adapters
