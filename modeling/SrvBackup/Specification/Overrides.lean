import SrvBackup.Adapters.Overrides

/-!
# What overrides are accepted and what they leave

`parseOverride_iff_grammar` is about one text: it is read exactly if it is a rendered key path and
value. `nestOverrides_spec` is about several: they are refused exactly if one key path is above
another, and what is left otherwise does not depend on their order.
-/
namespace SrvBackup.Specification

open SrvBackup.Storage SrvBackup.Adapters

/-- `parseOverride` accepts exactly the rendered texts, gives back what was rendered, which the text
determines, and refuses everything else. -/
theorem parseOverride_iff_grammar (loads : String → Option Value) (raw : String) :
    ((∃ o, parseOverride loads raw = .ok o) ↔
      ∃ keys text, IsKeyPath keys ∧ raw = render keys text) ∧
    (∀ o, parseOverride loads raw = .ok o ↔
      ∃ text, IsKeyPath (o.sectionName :: o.keyPath) ∧
        raw = render (o.sectionName :: o.keyPath) text ∧ o.value = coerceValue loads text) ∧
    (∀ keys text keys' text', IsKeyPath keys ∧ raw = render keys text →
      IsKeyPath keys' ∧ raw = render keys' text' → keys = keys' ∧ text = text') ∧
    ((¬ ∃ keys text, IsKeyPath keys ∧ raw = render keys text) →
      ∃ e, parseOverride loads raw = .error e) := by
  have hresult : ∀ o, parseOverride loads raw = .ok o ↔
      ∃ text, IsKeyPath o.path ∧ raw = render o.path text ∧ o.value = coerceValue loads text := by
    intro o
    constructor
    · intro h
      obtain ⟨hkeys, text, hraw, hvalue⟩ := isKeyPath_of_parseOverride h
      exact ⟨text, hkeys, hraw, hvalue⟩
    · rintro ⟨text, hkeys, rfl, hvalue⟩
      obtain ⟨o', ho', hpath, hvalue'⟩ := parseOverride_render loads hkeys text
      have hsame : o' = o := by
        cases o
        cases o'
        simp_all [ConfigOverride.path]
      rw [ho', hsame]
  have haccepts : (∃ o, parseOverride loads raw = .ok o) ↔
      ∃ keys text, IsKeyPath keys ∧ raw = render keys text := by
    constructor
    · rintro ⟨o, h⟩
      obtain ⟨text, hkeys, hraw, -⟩ := (hresult o).mp h
      exact ⟨_, text, hkeys, hraw⟩
    · rintro ⟨keys, text, hkeys, rfl⟩
      obtain ⟨o, ho, -⟩ := parseOverride_render loads hkeys text
      exact ⟨o, ho⟩
  refine ⟨haccepts, hresult, ?_, fun hno => ?_⟩
  · rintro keys text keys' text' ⟨hkeys, hraw⟩ ⟨hkeys', hraw'⟩
    exact (render_inj hkeys hkeys').mp (hraw.symm.trans hraw')
  · cases h : parseOverride loads raw with
    | error e => exact ⟨e, rfl⟩
    | ok o => exact absurd (haccepts.mp ⟨o, h⟩) hno

/-- Overrides that parse are refused, with a `ValueError`, exactly if the key path of one is above
that of another. Otherwise each path leads to its last value, and there is nothing else but the
tables above; the keys are the dotted ones; and with different keys the order does not matter. -/
theorem nestOverrides_spec (loads : String → Option Value) (raws : List String)
    (h : ∀ raw ∈ raws, ∃ o, parseOverride loads raw = .ok o) :
    ((∃ e, nestOverrides loads raws = .error (.valueError e)) ↔
      ∃ o ∈ parsed loads raws, ∃ o' ∈ parsed loads raws, o.path <+: o'.path ∧ o.path ≠ o'.path) ∧
    (∀ e, nestOverrides loads raws = .error e → ∃ e', e = .valueError e') ∧
    (∀ tree keys, nestOverrides loads raws = .ok (tree, keys) →
      Table.Holds (assignments (parsed loads raws)) tree ∧
        keys = ((parsed loads raws).map ConfigOverride.dottedKey).toFinset) ∧
    ∀ raws', raws.Perm raws' → ((parsed loads raws).map ConfigOverride.dottedKey).Nodup →
      ∀ tree keys, nestOverrides loads raws = .ok (tree, keys) →
        ∃ tree', nestOverrides loads raws' = .ok (tree', keys) ∧
          (Nested.table tree).Same (.table tree') := by
  have hapart : (∃ o ∈ parsed loads raws, ∃ o' ∈ parsed loads raws,
      o.path <+: o'.path ∧ o.path ≠ o'.path) ↔
        ¬ Table.Apart ((parsed loads raws).map ConfigOverride.path) := by
    simp [Table.Apart]
  rw [hapart]
  rcases nestOverrides_eq h with ⟨hap, es, hes, hholds⟩ | ⟨hno, key, nested, herror⟩
  · refine ⟨iff_of_false (by simp [hes]) (not_not.mpr hap), by simp [hes], ?_, ?_⟩
    · rintro tree keys hok
      cases hes.symm.trans hok
      exact ⟨hholds, rfl⟩
    · rintro raws' hperm hnodup tree keys hok
      cases hes.symm.trans hok
      have hperm' : (parsed loads raws).Perm (parsed loads raws') := hperm.filterMap _
      have h' : ∀ raw ∈ raws', ∃ o, parseOverride loads raw = .ok o := fun raw hraw =>
        h raw (hperm.mem_iff.mpr hraw)
      have hkeys : ((parsed loads raws).map ConfigOverride.dottedKey).toFinset =
          ((parsed loads raws').map ConfigOverride.dottedKey).toFinset :=
        List.toFinset_eq_of_perm _ _ (hperm'.map _)
      rcases nestOverrides_eq h' with ⟨-, es', hes', hholds'⟩ | ⟨hno, -⟩
      · refine ⟨es', by rw [hes', hkeys], hholds.same hholds' fun p => ?_⟩
        refine Table.lastValue_perm (hperm'.map _) ?_ p
        change ((assignments (parsed loads raws)).map Prod.fst).Nodup
        rw [map_fst_assignments]
        have hdotted : (parsed loads raws).map ConfigOverride.dottedKey =
            ((parsed loads raws).map ConfigOverride.path).map (".".intercalate ·) := by
          simp [ConfigOverride.dottedKey, Function.comp_def]
        exact List.Nodup.of_map _ (hdotted ▸ hnodup)
      · refine absurd (fun p hp q hq => hap p ?_ q ?_) hno
        · exact (hperm'.map _).mem_iff.mpr hp
        · exact (hperm'.map _).mem_iff.mpr hq
  · refine ⟨iff_of_true ⟨_, herror⟩ hno, ?_, by simp [herror], by simp [herror]⟩
    intro e he
    cases herror.symm.trans he
    exact ⟨_, rfl⟩

/-- A reader of the JSON texts `1` and `[]`. -/
def sampleLoads (raw : String) : Option Value :=
  if raw = "1" then some (.leaf (.int 1)) else if raw = "[]" then some (.leaf (.list [])) else none

theorem nestOverrides_sample :
    ∃ e, nestOverrides sampleLoads ["a.b=1", "a.b.c=[]"] = .error (.valueError e) := by
  have hab : IsKeyPath ["a", "b"] := by decide
  have habc : IsKeyPath ["a", "b", "c"] := by decide
  obtain ⟨o, ho, hpath, -⟩ := parseOverride_render sampleLoads hab "1"
  obtain ⟨o', ho', hpath', -⟩ := parseOverride_render sampleLoads habc "[]"
  have hmem : ∀ raw ∈ ["a.b=1", "a.b.c=[]"], ∀ o, parseOverride sampleLoads raw = .ok o →
      o ∈ parsed sampleLoads ["a.b=1", "a.b.c=[]"] := fun raw hraw o hparse =>
    List.mem_filterMap.mpr ⟨raw, hraw, by simp [hparse, Except.toOption]⟩
  refine (nestOverrides_spec sampleLoads _ ?_).1.mpr
    ⟨o, hmem "a.b=1" (by simp) o ho, o', hmem "a.b.c=[]" (by simp) o' ho', ?_⟩
  · simp only [List.forall_mem_cons, List.not_mem_nil, false_imp_iff, implies_true, and_true]
    exact ⟨⟨o, ho⟩, o', ho'⟩
  · rw [hpath, hpath']
    decide

end SrvBackup.Specification
