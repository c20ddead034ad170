import SrvBackup.Adapters.Config

/-!
# Where overridden values are said to come from

An override is relabelled by its own dotted key. `provenance_truthful_iff` says when that names the
command line for every value it supplied: not for the leaves of a JSON object, whose dotted keys are
longer, unless the configuration named the command line for them before.
-/
namespace SrvBackup.Specification

open SrvBackup.Storage SrvBackup.Text SrvBackup.Adapters

/-- The name under which a leaf has its origin. -/
def dotted (p : List String) : String := ".".intercalate p

/-- No key of the configuration has a dot. -/
def DotFree (data : Table String Scalar) : Prop :=
  ∀ p t, (Nested.table data).at? p = some t → ∀ k ∈ p, '.' ∉ k.toList

theorem dotFree_of_lookup {data : Table String Scalar}
    (h : ∀ k v, data.lookup k = some v → '.' ∉ k.toList ∧ ∀ sub, v = .table sub → DotFree sub) :
    DotFree data := by
  intro p t ht
  cases p with
  | nil => simp
  | cons k p =>
    obtain ⟨v, hv, hp⟩ := Option.bind_eq_some_iff.mp ht
    obtain ⟨hk, hsub⟩ := h k v hv
    refine List.forall_mem_cons.mpr ⟨hk, ?_⟩
    cases v with
    | table sub => exact hsub sub rfl p t hp
    | leaf a =>
      cases p with
      | nil => simp
      | cons l p => cases hp

theorem dotFree_singleton {k : String} {v : Value} (hk : '.' ∉ k.toList)
    (hv : ∀ sub, v = .table sub → DotFree sub) : DotFree [(k, v)] := by
  refine dotFree_of_lookup fun k' v' h => ?_
  rw [lookup_cons_eq_if] at h
  split at h
  · next heq =>
    cases h
    exact ⟨heq ▸ hk, hv⟩
  · cases h

/-- The leaf at `p` is in the value of an override, the last one with its key. -/
def Supplied (overrides : List ConfigOverride) (p : List String) : Prop :=
  ∃ q r v a, Table.lastValue (assignments overrides) q = some v ∧ p = q ++ r ∧
    v.at? r = some (.leaf a)

def FromCli (config : Config) (name : String) : Prop :=
  ∃ origin, config.origin name = some origin ∧ origin.layer = cliLayer

/-- The leaves that were supplied come from the command line, the others are as before. -/
structure Truthful (config : Config) (overrides : List ConfigOverride) (result : Config) :
    Prop where
  supplied : ∀ p a, (Nested.table result.data).at? p = some (.leaf a) → Supplied overrides p →
    FromCli result (dotted p)
  other : ∀ p a, (Nested.table result.data).at? p = some (.leaf a) → ¬ Supplied overrides p →
    (Nested.table config.data).at? p = some (.leaf a) ∧
      result.origin (dotted p) = config.origin (dotted p)

section

variable {overrides : List ConfigOverride} {es : Table String Scalar}

theorem supplied_iff (h : Table.Holds (assignments overrides) es) {p : List String} (hne : p ≠ []) :
    Supplied overrides p ↔ ∃ a, (Nested.table es).at? p = some (.leaf a) := by
  constructor
  · rintro ⟨q, r, v, a, hv, rfl, hr⟩
    refine ⟨a, ?_⟩
    rw [Nested.at?_append, h.reads q v hv]
    exact hr
  · rintro ⟨a, ha⟩
    rcases h.only p _ hne ha with ⟨q, hq, r, rfl⟩ | ⟨-, sub, hsub⟩
    · obtain ⟨v, hv⟩ := Table.exists_lastValue.mpr hq
      rw [Nested.at?_append, h.reads q v hv] at ha
      exact ⟨q, r, v, a, hv, rfl, ha⟩
    · cases hsub

theorem exists_override {p : List String}
    (h : p ∈ (assignments overrides).map Prod.fst) : ∃ o ∈ overrides, o.path = p := by
  rw [map_fst_assignments] at h
  exact List.mem_map.mp h

/-- A leaf below the key of an override is under no override's dotted key. -/
theorem dotted_append_notMem (hkeys : ∀ o ∈ overrides, IsKeyPath o.path)
    (hapart : Table.Apart (overrides.map ConfigOverride.path)) {o : ConfigOverride}
    (ho : o ∈ overrides) {r : List String} (hr : r ≠ []) :
    dotted (o.path ++ r) ∉ overrides.map ConfigOverride.dottedKey := by
  intro hmem
  obtain ⟨o', ho', heq⟩ := List.mem_map.mp hmem
  have hjoin : dotted (o.path ++ r) = o.dottedKey ++ "." ++ ".".intercalate r := by
    rw [← String.toList_inj]
    have := @intercalate_append Char '.' (o.path.map String.toList) (r.map String.toList)
      (by simpa using (hkeys o ho).ne_nil) (by simpa using hr)
    simpa [dotted, ConfigOverride.dottedKey, String.toList_intercalate] using this
  have hstarts : (o.dottedKey ++ ".").toList <+: o'.dottedKey.toList := by
    rw [heq, hjoin]
    exact ⟨(".".intercalate r).toList, String.toList_append.symm⟩
  obtain ⟨hpre, hne⟩ := (dottedKey_startsWith_iff (hkeys o ho) (hkeys o' ho')).mp hstarts
  exact hne (hapart _ (List.mem_map_of_mem ho) _ (List.mem_map_of_mem ho') hpre)

/-- Dotted keys determine dot-free paths. -/
theorem mem_of_dotted_mem (hkeys : ∀ o ∈ overrides, IsKeyPath o.path) {p : List String}
    (hp : ∀ k ∈ p, '.' ∉ k.toList) (hne : p ≠ [])
    (h : dotted p ∈ overrides.map ConfigOverride.dottedKey) :
    p ∈ overrides.map ConfigOverride.path := by
  obtain ⟨o, ho, heq⟩ := List.mem_map.mp h
  have hinj : Function.Injective (List.map String.toList) :=
    List.map_injective_iff.mpr fun a b => String.toList_inj.mp
  have hlists := congrArg String.toList heq
  simp only [ConfigOverride.dottedKey, dotted, String.toList_intercalate] at hlists
  have hpdot : ∀ cs ∈ p.map String.toList, '.' ∉ cs := by
    intro cs hcs
    obtain ⟨k, hk, rfl⟩ := List.mem_map.mp hcs
    exact hp k hk
  have hpath := (intercalate_inj (hkeys o ho).dot_notMem hpdot (by simpa using (hkeys o ho).ne_nil)
    (by simpa using hne)).mp hlists
  exact List.mem_map.mpr ⟨o, ho, hinj hpath⟩

end

section Accepted

variable {loads : String → Option Value}
  {merge : Table String Scalar → Table String Scalar → Table String Scalar} {config result : Config}
  {raws : List String}

theorem dotted_mem_dottedKeys {data : Table String Scalar} {p : List String} {a : Scalar}
    (h : (Nested.table data).at? p = some (.leaf a)) : dotted p ∈ Adapters.dottedKeys "" data := by
  simpa [dotted] using mem_dottedKeys h ""

/-- A leaf of a JSON object that is an override's value is there, and its origin is the old one. -/
theorem origin_below (hmerge : Table.IsMerge merge)
    (h : applyOverrides loads merge config raws = .ok result) {q r : List String} {v : Value}
    {a : Scalar} (hv : Table.lastValue (assignments (parsed loads raws)) q = some v) (hr : r ≠ [])
    (ha : v.at? r = some (.leaf a)) :
    (Nested.table result.data).at? (q ++ r) = some (.leaf a) ∧
      result.origin (dotted (q ++ r)) = config.origin (dotted (q ++ r)) := by
  obtain ⟨-, hapart, ⟨rfl, rfl⟩ | ⟨es, hholds, hdata, horigin⟩⟩ := applyOverrides_ok h
  · cases hv
  obtain ⟨o, ho, rfl⟩ := exists_override (Table.exists_lastValue.mp ⟨v, hv⟩)
  have hkeys : ∀ o ∈ parsed loads raws, IsKeyPath o.path := fun o ho => isKeyPath_of_mem_parsed ho
  have hleaf : (Nested.table result.data).at? (o.path ++ r) = some (.leaf a) := by
    rw [hdata]
    refine hmerge.at?_leaf ?_
    rw [Nested.at?_append, hholds.reads _ v hv]
    exact ha
  refine ⟨hleaf, ?_⟩
  rw [horigin, if_pos (dotted_mem_dottedKeys hleaf),
    if_neg (dotted_append_notMem hkeys hapart ho hr)]

/-- The key of an override that is a leaf comes from the command line. -/
theorem origin_key (h : applyOverrides loads merge config raws = .ok result) {q : List String}
    {v : Value} {a : Scalar}
    (hv : Table.lastValue (assignments (parsed loads raws)) q = some v)
    (ha : (Nested.table result.data).at? q = some (.leaf a)) : FromCli result (dotted q) := by
  obtain ⟨-, -, ⟨rfl, rfl⟩ | ⟨es, hholds, hdata, horigin⟩⟩ := applyOverrides_ok h
  · cases hv
  obtain ⟨o, ho, rfl⟩ := exists_override (Table.exists_lastValue.mp ⟨v, hv⟩)
  have hmem : dotted o.path ∈ (parsed loads raws).map ConfigOverride.dottedKey :=
    List.mem_map.mpr ⟨o, ho, rfl⟩
  refine ⟨⟨cliLayer, none, dotted o.path⟩, ?_, rfl⟩
  rw [horigin, if_pos (dotted_mem_dottedKeys ha), if_pos hmem]

/-- A leaf that no override supplied is as before. -/
theorem unsupplied (hmerge : Table.IsMerge merge) (hdots : DotFree config.data)
    (h : applyOverrides loads merge config raws = .ok result) {p : List String} {a : Scalar}
    (ha : (Nested.table result.data).at? p = some (.leaf a))
    (hno : ¬ Supplied (parsed loads raws) p) :
    (Nested.table config.data).at? p = some (.leaf a) ∧
      result.origin (dotted p) = config.origin (dotted p) := by
  obtain ⟨-, -, ⟨rfl, rfl⟩ | ⟨es, hholds, hdata, horigin⟩⟩ := applyOverrides_ok h
  · exact ⟨ha, rfl⟩
  have hne : p ≠ [] := by
    rintro rfl
    simp at ha
  have hnone : (Nested.table es).at? p = none := by
    cases ht : (Nested.table es).at? p with
    | none => rfl
    | some t =>
      cases t with
      | leaf b => exact absurd ((supplied_iff hholds hne).mpr ⟨b, ht⟩) hno
      | table sub =>
        obtain ⟨sub', hsub'⟩ : ∃ sub', (Nested.table (merge config.data es)).at? p =
            some (.table sub') := hmerge.at?_table ht
        rw [← hdata, ha] at hsub'
        cases hsub'
  have hbase : (Nested.table config.data).at? p = some (.leaf a) :=
    hmerge.at?_base hnone (hdata ▸ ha)
  refine ⟨hbase, ?_⟩
  rw [horigin, if_pos (dotted_mem_dottedKeys ha), if_neg]
  intro hmem
  have hpath :=
    mem_of_dotted_mem (fun o ho => isKeyPath_of_mem_parsed ho) (hdots p _ hbase) hne hmem
  rw [← map_fst_assignments] at hpath
  obtain ⟨v, hv⟩ := Table.exists_lastValue.mpr hpath
  rw [hholds.reads p v hv] at hnone
  cases hnone

/-- The origins are truthful exactly if every leaf of a JSON object that an override has as its
value already came from the command line. -/
theorem provenance_truthful_iff (hmerge : Table.IsMerge merge) (hdots : DotFree config.data)
    (h : applyOverrides loads merge config raws = .ok result) :
    Truthful config (parsed loads raws) result ↔
      ∀ q v, Table.lastValue (assignments (parsed loads raws)) q = some v →
        ∀ r a, r ≠ [] → v.at? r = some (.leaf a) → FromCli config (dotted (q ++ r)) := by
  constructor
  · intro htruth q v hv r a hr ha
    obtain ⟨hleaf, hsame⟩ := origin_below hmerge h hv hr ha
    obtain ⟨origin, ho, hlayer⟩ := htruth.supplied _ a hleaf ⟨q, r, v, a, hv, rfl, ha⟩
    exact ⟨origin, hsame ▸ ho, hlayer⟩
  · intro hcond
    refine ⟨?_, fun p a ha hno => unsupplied hmerge hdots h ha hno⟩
    rintro p a ha ⟨q, r, v, b, hv, rfl, hb⟩
    by_cases hr : r = []
    · subst hr
      rw [List.append_nil] at ha ⊢
      exact origin_key h hv ha
    · obtain ⟨origin, ho, hlayer⟩ := hcond q v hv r b hr hb
      exact ⟨origin, (origin_below hmerge h hv hr hb).2 ▸ ho, hlayer⟩

end Accepted

/-- A reader of one JSON object, with the member `x`. -/
def objectText : String := "\x7b\"x\":2\x7d"

def sampleObject : Value := .table [("x", .leaf (.int 2))]

def objectLoads (raw : String) : Option Value :=
  if raw = objectText then some sampleObject else none

/-- A configuration whose only leaf, `a.b.x`, came from a file. -/
def sampleConfig : Config where
  data := [("a", .table [("b", .table [("x", .leaf (.int 1))])])]
  provenance := AList.insert "a.b.x" ⟨"app", some "/etc/config.toml", "a.b.x"⟩ ∅

theorem sampleConfig_dotFree : DotFree sampleConfig.data := by
  refine dotFree_singleton (by decide) ?_
  rintro - ⟨⟩
  refine dotFree_singleton (by decide) ?_
  rintro - ⟨⟩
  exact dotFree_singleton (by decide) fun sub h => by cases h

/-- One override is accepted. -/
theorem exists_sampleResult (keys : List String) (hkeys : IsKeyPath keys) (text : String) :
    ∃ o result, parsed objectLoads [render keys text] = [o] ∧ o.path = keys ∧
      o.value = coerceValue objectLoads text ∧
      applyOverrides objectLoads Table.merge sampleConfig [render keys text] = .ok result := by
  obtain ⟨o, ho, hpath, hvalue⟩ := parseOverride_render objectLoads hkeys text
  have hparsed : parsed objectLoads [render keys text] = [o] := by
    simp [parsed, ho, Except.toOption]
  obtain ⟨result, hresult⟩ : ∃ result, applyOverrides objectLoads Table.merge sampleConfig
      [render keys text] = .ok result := by
    refine exists_applyOverrides (by simpa using ⟨o, ho⟩) ?_
    rw [hparsed]
    simp [Table.Apart]
  exact ⟨o, result, hparsed, hpath, hvalue, hresult⟩

theorem provenance_truthful_sample : ∃ result,
    applyOverrides objectLoads Table.merge sampleConfig ["a.b.x=2"] = .ok result ∧
      Truthful sampleConfig (parsed objectLoads ["a.b.x=2"]) result := by
  have htext : "a.b.x=2" = render ["a", "b", "x"] "2" := by decide
  obtain ⟨o, result, hparsed, hpath, hvalue, hresult⟩ :=
    exists_sampleResult ["a", "b", "x"] (by decide) "2"
  rw [htext]
  refine ⟨result, hresult, (provenance_truthful_iff Table.merge_isMerge sampleConfig_dotFree
    hresult).mpr fun q v hv r a hr ha => ?_⟩
  obtain rfl : v = .leaf (.str "2") := by
    rw [hparsed, assignments, List.map_singleton, hvalue] at hv
    rw [Table.lastValue, List.reverse_singleton, lookup_cons_eq_if] at hv
    split at hv
    · exact (Option.some.inj hv).symm
    · cases hv
  obtain ⟨k, r, rfl⟩ := List.exists_cons_of_ne_nil hr
  cases ha

/-- The value is a JSON object: the leaf it gives a new value is still said to come from the
file. -/
theorem json_object_keeps_old_origin : ∃ result,
    applyOverrides objectLoads Table.merge sampleConfig ["a.b=" ++ objectText] = .ok result ∧
      DotFree sampleConfig.data ∧
      ¬ Truthful sampleConfig (parsed objectLoads ["a.b=" ++ objectText]) result := by
  have htext : "a.b=" ++ objectText = render ["a", "b"] objectText := by decide
  obtain ⟨o, result, hparsed, hpath, hvalue, hresult⟩ :=
    exists_sampleResult ["a", "b"] (by decide) objectText
  rw [htext]
  refine ⟨result, hresult, sampleConfig_dotFree, fun htruth => ?_⟩
  have hv : Table.lastValue (assignments (parsed objectLoads [render ["a", "b"] objectText]))
      ["a", "b"] = some sampleObject := by
    rw [hparsed, assignments, List.map_singleton, hvalue, hpath, Table.lastValue,
      List.reverse_singleton, lookup_cons_eq_if, if_pos rfl]
    rfl
  have hx : sampleObject.at? ["x"] = some (.leaf (.int 2)) := rfl
  obtain ⟨hleaf, hsame⟩ := origin_below Table.merge_isMerge hresult hv (by simp) hx
  obtain ⟨origin, horigin, hlayer⟩ := htruth.supplied _ _ hleaf ⟨_, _, _, _, hv, rfl, hx⟩
  rw [hsame] at horigin
  have hold : sampleConfig.origin (dotted (["a", "b"] ++ ["x"])) =
      some ⟨"app", some "/etc/config.toml", "a.b.x"⟩ := by decide
  rw [hold] at horigin
  cases horigin
  exact absurd hlayer (by decide)

end SrvBackup.Specification
