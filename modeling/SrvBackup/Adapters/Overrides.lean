import SrvBackup.Storage.Table
import SrvBackup.Text.Lines
import SrvBackup.Text.Order
import Mathlib.Algebra.Order.Ring.Unbundled.Rat
import Mathlib.Data.Finset.Dedup

/-!
# Configuration overrides

`--set SECTION.KEY=VALUE`: `parseOverride` reads one, `nestOverrides` reads several, refuses those
that contradict each other and nests the rest. The JSON reader is a parameter, `loads`, with `none`
for what it does not read.

A text is read by `Grammar`; `nestOverrides_eq` says what the overrides leave in terms of
`Table.Holds`, with the refusal as `Table.Apart`.
-/
namespace SrvBackup.Adapters

open SrvBackup.Storage SrvBackup.Text

/-- A configuration value that is no table. A float stands for the number it denotes. -/
inductive Scalar where
  | null
  | bool (b : Bool)
  | int (i : Int)
  | float (x : ℚ)
  | str (s : String)
  | list (items : List (Nested String Scalar))

/-- What configuration files, the environment and `--set` hold. -/
abbrev Value := Nested String Scalar

structure ConfigOverride where
  sectionName : String
  keyPath : List String
  value : Value
  keyPath_ne : keyPath ≠ []

/-- The `ValueError`s of this module. -/
inductive OverrideError where
  | noEquals (raw : String)
  | noDot (raw : String)
  | emptySection (raw : String)
  | emptyKey (raw : String)
  | conflict (key nested : String)
  deriving DecidableEq, Repr

/-- The message, with `repr` for Python's of a text. -/
def OverrideError.text (repr : String → String) : OverrideError → String
  | .noEquals raw => "Invalid override " ++ repr raw ++ ": must contain '='"
  | .noDot raw =>
    "Invalid override " ++ repr raw ++ ": key must contain at least one dot (SECTION.KEY)"
  | .emptySection raw => "Invalid override " ++ repr raw ++ ": section name is empty"
  | .emptyKey raw => "Invalid override " ++ repr raw ++ ": key path contains empty component"
  | .conflict key nested =>
    "conflicting --set overrides: " ++ key ++ " is given a value and " ++ nested ++
      " puts a key under it"

/-- What nesting can raise: a refusal, or what Python raises when a value is not the table that a
key is looked up or stored in. -/
inductive Raised where
  | valueError (e : OverrideError)
  | attributeError
  | typeError
  deriving DecidableEq, Repr

def coerceValue (loads : String → Option Value) (raw : String) : Value :=
  if raw = "" then .leaf (.str "")
  else match loads raw with
    | some value => value
    | none => .leaf (.str raw)

/-- A text with a separator has a piece after the first one. -/
theorem tail_splitOn_ne_nil {cs : List Char} (h : '.' ∈ cs) :
    ((cs.splitOn '.').map String.ofList).tail ≠ [] := by
  obtain ⟨front, back, rfl⟩ := List.append_of_mem h
  rw [List.splitOn_append_cons_self]
  obtain ⟨x, xs, hx⟩ := List.exists_cons_of_ne_nil (List.splitOn_ne_nil '.' front)
  rw [hx]
  simp [List.splitOn_ne_nil]

def parseOverride (loads : String → Option Value) (raw : String) :
    Except OverrideError ConfigOverride :=
  if '=' ∉ raw.toList then .error (.noEquals raw)
  else
    let pathPart := raw.toList.takeWhile (· ≠ '=')
    let valueStr := String.ofList (raw.toList.dropWhile (· ≠ '=')).tail
    if h : '.' ∈ pathPart then
      let parts := (pathPart.splitOn '.').map String.ofList
      if parts.headD "" = "" then .error (.emptySection raw)
      else if "" ∈ parts.tail then .error (.emptyKey raw)
      else .ok ⟨parts.headD "", parts.tail, coerceValue loads valueStr, tail_splitOn_ne_nil h⟩
    else .error (.noDot raw)

/-- `_nest_override`. -/
def nestOverride (target : Table String Scalar) (override : ConfigOverride) :
    Except Raised (Table String Scalar) :=
  (target.nest override.sectionName override.keyPath override.value).mapError fun blocked =>
    if blocked.length = 1 then .typeError else .attributeError

namespace ConfigOverride

/-- The keys from the section down. -/
def path (override : ConfigOverride) : List String := override.sectionName :: override.keyPath

def dottedKey (override : ConfigOverride) : String := ".".intercalate override.path

end ConfigOverride

/-- The first key that another one is under, with the first such. -/
def conflict? (dottedKeys : List String) : Option (String × String) :=
  dottedKeys.findSome? fun key =>
    (dottedKeys.find? fun other => (key ++ ".").toList <+: other.toList).map fun nested =>
      (key, nested)

/-- `_refuse_conflicts`. -/
def refuseConflicts (dottedKeys : List String) : Except OverrideError Unit :=
  match conflict? dottedKeys with
  | some (key, nested) => .error (.conflict key nested)
  | none => .ok ()

def nestOverrides (loads : String → Option Value) (rawOverrides : List String) :
    Except Raised (Table String Scalar × Finset String) := do
  let parsed ← (rawOverrides.mapM (parseOverride loads)).mapError Raised.valueError
  let dottedKeys := parsed.map ConfigOverride.dottedKey
  (refuseConflicts dottedKeys).mapError Raised.valueError
  let overrides ← parsed.foldlM nestOverride []
  pure (overrides, dottedKeys.toFinset)

/-! ## Reading one override -/

/-- `SECTION.KEY[.SUBKEY...]=VALUE`. -/
def render (keys : List String) (text : String) : String := ".".intercalate keys ++ "=" ++ text

/-- The keys of an override: a section and at least one key, none empty or with a separator. -/
def IsKeyPath (keys : List String) : Prop :=
  2 ≤ keys.length ∧ ∀ k ∈ keys, k ≠ "" ∧ '.' ∉ k.toList ∧ '=' ∉ k.toList

instance (keys : List String) : Decidable (IsKeyPath keys) := by unfold IsKeyPath; infer_instance

namespace IsKeyPath

variable {keys : List String}

theorem ne_nil (h : IsKeyPath keys) : keys ≠ [] := by
  rintro rfl
  exact absurd h.1 (by decide)

theorem dot_notMem (h : IsKeyPath keys) : ∀ cs ∈ keys.map String.toList, '.' ∉ cs := by
  intro cs hcs
  obtain ⟨k, hk, rfl⟩ := List.mem_map.mp hcs
  exact (h.2 k hk).2.1

theorem equals_notMem (h : IsKeyPath keys) : '=' ∉ ['.'].intercalate (keys.map String.toList) := by
  have hkeys := h.2
  clear h
  induction keys with
  | nil => simp
  | cons k keys ih =>
    have hk := hkeys k (by simp)
    have hrest := ih fun l hl => hkeys l (by simp [hl])
    cases keys with
    | nil => simpa using hk.2.2
    | cons l keys =>
      rw [List.map_cons] at hrest
      rw [List.map_cons, List.map_cons, List.intercalate_cons_cons]
      simp [hk.2.2, hrest]

/-- One key is no key path, so nothing is above a section. -/
theorem not_prefix_singleton (h : IsKeyPath keys) (name : String) : ¬ keys <+: [name] :=
  fun hpre => absurd (h.1.trans hpre.length_le) (by simp)

end IsKeyPath

theorem toList_render (keys : List String) (text : String) : (render keys text).toList =
    ['.'].intercalate (keys.map String.toList) ++ '=' :: text.toList := by
  simp [render, String.toList_intercalate]

/-- The keys and the text can be told from what is rendered. -/
theorem render_inj {keys keys' : List String} {text text' : String} (h : IsKeyPath keys)
    (h' : IsKeyPath keys') :
    render keys text = render keys' text' ↔ keys = keys' ∧ text = text' := by
  rw [← String.toList_inj, toList_render, toList_render,
    append_sep_inj h.equals_notMem h'.equals_notMem,
    intercalate_inj h.dot_notMem h'.dot_notMem (by simpa using h.ne_nil) (by simpa using h'.ne_nil),
    String.toList_inj, (List.map_injective_iff.mpr fun a b => String.toList_inj.mp).eq_iff]

section Parse

variable {loads : String → Option Value}

/-- The part before the first equals sign and the part after it. -/
theorem takeWhile_equals {front back : List Char} (h : '=' ∉ front) :
    (front ++ '=' :: back).takeWhile (· ≠ '=') = front ∧
      ((front ++ '=' :: back).dropWhile (· ≠ '=')).tail = back := by
  have hfront : ∀ c ∈ front, decide (c ≠ '=') = true := by
    intro c hc
    exact decide_eq_true fun heq => h (heq ▸ hc)
  constructor
  · rw [List.takeWhile_append_of_pos hfront]
    simp
  · rw [List.dropWhile_append_of_pos hfront]
    simp

/-- What `parseOverride` makes of a text with an equals sign. -/
theorem parseOverride_split {front back : List Char} (h : '=' ∉ front) {raw : String}
    (hraw : raw.toList = front ++ '=' :: back) :
    parseOverride loads raw =
      if hdot : '.' ∈ front then
        let parts := (front.splitOn '.').map String.ofList
        if parts.headD "" = "" then .error (.emptySection raw)
        else if "" ∈ parts.tail then .error (.emptyKey raw)
        else .ok ⟨parts.headD "", parts.tail, coerceValue loads (String.ofList back),
          tail_splitOn_ne_nil hdot⟩
      else .error (.noDot raw) := by
  obtain ⟨hfront, hback⟩ := @takeWhile_equals front back h
  rw [parseOverride, if_neg (by simp [hraw])]
  simp only [hraw, hfront, hback]

theorem parseOverride_render (loads : String → Option Value) {keys : List String}
    (h : IsKeyPath keys) (text : String) :
    ∃ o, parseOverride loads (render keys text) = .ok o ∧ o.path = keys ∧
      o.value = coerceValue loads text := by
  have hparts : ((['.'].intercalate (keys.map String.toList)).splitOn '.').map String.ofList =
      keys := by
    rw [List.splitOn_intercalate _ h.dot_notMem (by simpa using h.ne_nil)]
    simp
  have hdot : '.' ∈ ['.'].intercalate (keys.map String.toList) := by
    by_contra hno
    rw [List.splitOn_eq_singleton hno] at hparts
    have hlen := h.1
    rw [← hparts] at hlen
    exact absurd hlen (by simp)
  rw [parseOverride_split h.equals_notMem (toList_render keys text)]
  simp only [hdot, dif_pos, hparts]
  cases keys with
  | nil => exact absurd rfl h.ne_nil
  | cons k keys =>
    have hk := (h.2 k (by simp)).1
    have hkeys : "" ∉ keys := fun hmem => (h.2 "" (by simp [hmem])).1 rfl
    simp [hk, hkeys, ConfigOverride.path]

theorem isKeyPath_of_parseOverride {raw : String} {o : ConfigOverride}
    (h : parseOverride loads raw = .ok o) :
    IsKeyPath o.path ∧ ∃ text, raw = render o.path text ∧ o.value = coerceValue loads text := by
  by_cases hequals : '=' ∈ raw.toList
  swap
  · rw [parseOverride, if_pos hequals] at h
    cases h
  obtain ⟨front, back, hraw, hfront⟩ := List.eq_append_cons_of_mem hequals
  rw [parseOverride_split hfront hraw] at h
  by_cases hdot : '.' ∈ front
  swap
  · rw [dif_neg hdot] at h
    cases h
  rw [dif_pos hdot] at h
  have htail := tail_splitOn_ne_nil hdot
  have hpieces : ∀ cs ∈ front.splitOn '.', '.' ∉ cs ∧ '=' ∉ cs := fun cs hcs =>
    ⟨notMem_of_mem_splitOn hcs, fun hmem => hfront ((infix_of_mem_splitOn hcs).subset hmem)⟩
  have hjoin := @List.intercalate_splitOn Char front _ _ '.'
  obtain ⟨x, xs, hsplit⟩ := List.exists_cons_of_ne_nil (List.splitOn_ne_nil '.' front)
  simp only [hsplit] at h hpieces hjoin htail
  split at h
  · cases h
  next hsection =>
  split at h
  · cases h
  next hkeys =>
  cases h
  have hpath : ∀ k ∈ String.ofList x :: xs.map String.ofList,
      k ≠ "" ∧ '.' ∉ k.toList ∧ '=' ∉ k.toList := by
    intro k hk
    rw [← List.map_cons (f := String.ofList)] at hk
    obtain ⟨cs, hcs, rfl⟩ := List.mem_map.mp hk
    refine ⟨fun hempty => ?_, by simpa using hpieces cs hcs⟩
    rcases List.mem_cons.mp hcs with rfl | hcs
    · exact hsection hempty
    · exact hkeys (List.mem_map.mpr ⟨cs, hcs, hempty⟩)
  refine ⟨⟨?_, hpath⟩, String.ofList back, ?_, rfl⟩
  · have hpos := List.length_pos_of_ne_nil htail
    exact Nat.succ_le_succ hpos
  · rw [← String.toList_inj, hraw, toList_render]
    change front ++ '=' :: back =
      ['.'].intercalate ((String.ofList x :: xs.map String.ofList).map String.toList) ++ _
    rw [← List.map_cons (f := String.ofList), List.map_map]
    simp [hjoin, Function.comp_def]

end Parse

/-! ## Nesting several -/

/-- The overrides as assignments to paths, in their order. -/
def assignments (overrides : List ConfigOverride) : List (List String × Value) :=
  overrides.map fun o => (o.path, o.value)

theorem map_fst_assignments (overrides : List ConfigOverride) :
    (assignments overrides).map Prod.fst = overrides.map ConfigOverride.path := by
  simp [assignments, Function.comp_def]

theorem dottedKey_startsWith_iff {o o' : ConfigOverride} (h : IsKeyPath o.path)
    (h' : IsKeyPath o'.path) :
    (o.dottedKey ++ ".").toList <+: o'.dottedKey.toList ↔
      o.path <+: o'.path ∧ o.path ≠ o'.path := by
  have hinj : Function.Injective String.toList := fun a b => String.toList_inj.mp
  have hiff := intercalate_sep_prefix_iff h.dot_notMem h'.dot_notMem (by simpa using h.ne_nil)
    (by simpa using h'.ne_nil)
  rw [ConfigOverride.dottedKey, ConfigOverride.dottedKey, String.toList_append,
    String.toList_intercalate, String.toList_intercalate]
  refine hiff.trans (and_congr ?_ (not_congr (List.map_injective_iff.mpr hinj).eq_iff))
  exact List.prefix_map_iff_of_injective hinj

/-- The refusal looks at texts, and finds exactly the paths that are above others. -/
theorem conflict?_eq_none_iff {os : List ConfigOverride} (h : ∀ o ∈ os, IsKeyPath o.path) :
    conflict? (os.map ConfigOverride.dottedKey) = none ↔
      Table.Apart (os.map ConfigOverride.path) := by
  have hall : conflict? (os.map ConfigOverride.dottedKey) = none ↔
      ∀ o ∈ os, ∀ o' ∈ os, ¬ (o.dottedKey ++ ".").toList <+: o'.dottedKey.toList := by
    simp [conflict?]
  rw [hall]
  constructor
  · intro hno p hp q hq hpq
    obtain ⟨o, ho, rfl⟩ := List.mem_map.mp hp
    obtain ⟨o', ho', rfl⟩ := List.mem_map.mp hq
    by_contra hne
    exact hno o ho o' ho' ((dottedKey_startsWith_iff (h o ho) (h o' ho')).mpr ⟨hpq, hne⟩)
  · intro hapart o ho o' ho' hpre
    obtain ⟨hpq, hne⟩ := (dottedKey_startsWith_iff (h o ho) (h o' ho')).mp hpre
    exact hne (hapart _ (List.mem_map_of_mem ho) _ (List.mem_map_of_mem ho') hpq)

/-- Overrides of which no path is above another can all be nested. -/
theorem foldlM_nestOverride {os : List ConfigOverride}
    (h : Table.Apart (os.map ConfigOverride.path)) :
    ∃ es, os.foldlM nestOverride [] = .ok es ∧ Table.Holds (assignments os) es := by
  induction os using List.reverseRecOn with
  | nil => exact ⟨[], rfl, Table.Holds.empty⟩
  | append_singleton os o ih =>
    have hsub : Table.Apart (os.map ConfigOverride.path) := fun p hp q hq =>
      h p (by simp_all) q (by simp_all)
    obtain ⟨es, hes, hholds⟩ := ih hsub
    have hpaths : (assignments os ++ [(o.path, o.value)]).map Prod.fst =
        (os ++ [o]).map ConfigOverride.path := by
      simp [map_fst_assignments]
    obtain ⟨es', hes', hholds'⟩ : ∃ es', es.nest o.sectionName o.keyPath o.value = .ok es' ∧
        Table.Holds (assignments os ++ [(o.path, o.value)]) es' :=
      hholds.nest (hpaths ▸ h)
    refine ⟨es', ?_, by simpa [assignments] using hholds'⟩
    rw [List.foldlM_append, hes]
    change nestOverride es o >>= pure = _
    rw [bind_pure, nestOverride, hes']
    rfl

section Raw

variable (loads : String → Option Value)

/-- What the texts that parse are parsed to. -/
def parsed (raws : List String) : List ConfigOverride :=
  raws.filterMap fun raw => (parseOverride loads raw).toOption

variable {loads} {raws : List String}

theorem isKeyPath_of_mem_parsed {o : ConfigOverride} (ho : o ∈ parsed loads raws) :
    IsKeyPath o.path := by
  obtain ⟨raw, -, hraw⟩ := List.mem_filterMap.mp ho
  cases hparse : parseOverride loads raw with
  | error e => simp [hparse, Except.toOption] at hraw
  | ok o' =>
    rw [hparse] at hraw
    cases hraw
    exact (isKeyPath_of_parseOverride hparse).1

theorem mapM_parseOverride (h : ∀ raw ∈ raws, ∃ o, parseOverride loads raw = .ok o) :
    raws.mapM (parseOverride loads) = .ok (parsed loads raws) := by
  induction raws with
  | nil => rfl
  | cons raw raws ih =>
    obtain ⟨o, ho⟩ := h raw (by simp)
    have hrest := ih fun r hr => h r (by simp [hr])
    have hcons : parsed loads (raw :: raws) = o :: parsed loads raws := by
      simp [parsed, ho, Except.toOption]
    rw [List.mapM_cons, ho, hrest, hcons]
    rfl

theorem parses_of_mapM {os : List ConfigOverride} (h : raws.mapM (parseOverride loads) = .ok os) :
    ∀ raw ∈ raws, ∃ o, parseOverride loads raw = .ok o := by
  induction raws generalizing os with
  | nil => simp
  | cons raw raws ih =>
    rw [List.mapM_cons] at h
    cases ho : parseOverride loads raw with
    | error e =>
      rw [ho] at h
      cases h
    | ok o =>
      cases hrest : raws.mapM (parseOverride loads) with
      | error e =>
        rw [ho, hrest] at h
        cases h
      | ok os' => exact List.forall_mem_cons.mpr ⟨⟨o, ho⟩, ih hrest⟩

/-- What nests has parsed. -/
theorem parses_of_nestOverrides {r : Table String Scalar × Finset String}
    (h : nestOverrides loads raws = .ok r) :
    ∀ raw ∈ raws, ∃ o, parseOverride loads raw = .ok o := by
  cases hos : raws.mapM (parseOverride loads) with
  | ok os => exact parses_of_mapM hos
  | error e =>
    rw [nestOverrides, hos] at h
    cases h

theorem nestOverrides_of_parse (h : ∀ raw ∈ raws, ∃ o, parseOverride loads raw = .ok o) :
    nestOverrides loads raws =
      match conflict? ((parsed loads raws).map ConfigOverride.dottedKey) with
      | some (key, nested) => .error (.valueError (.conflict key nested))
      | none => ((parsed loads raws).foldlM nestOverride []).map fun es =>
        (es, ((parsed loads raws).map ConfigOverride.dottedKey).toFinset) := by
  rw [nestOverrides, mapM_parseOverride h]
  generalize parsed loads raws = os
  change (Except.mapError Raised.valueError (refuseConflicts (os.map _)) >>= fun _ => _) = _
  unfold refuseConflicts
  cases conflict? (os.map ConfigOverride.dottedKey) with
  | some found => rfl
  | none =>
    change (os.foldlM nestOverride [] >>= _) = _
    cases os.foldlM nestOverride [] <;> rfl

/-- Overrides that parse are refused exactly if one path is above another, and nested
otherwise. -/
theorem nestOverrides_eq (h : ∀ raw ∈ raws, ∃ o, parseOverride loads raw = .ok o) :
    (Table.Apart ((parsed loads raws).map ConfigOverride.path) ∧ ∃ es,
      nestOverrides loads raws =
        .ok (es, ((parsed loads raws).map ConfigOverride.dottedKey).toFinset) ∧
      Table.Holds (assignments (parsed loads raws)) es) ∨
    (¬ Table.Apart ((parsed loads raws).map ConfigOverride.path) ∧ ∃ key nested,
      nestOverrides loads raws = .error (.valueError (.conflict key nested))) := by
  have hconflict := @conflict?_eq_none_iff (parsed loads raws) fun o ho =>
    isKeyPath_of_mem_parsed ho
  rw [nestOverrides_of_parse h]
  by_cases hapart : Table.Apart ((parsed loads raws).map ConfigOverride.path)
  · obtain ⟨es, hes, hholds⟩ := foldlM_nestOverride hapart
    refine .inl ⟨hapart, es, ?_, hholds⟩
    rw [hconflict.mpr hapart, hes]
    rfl
  · obtain ⟨⟨key, nested⟩, hkeys⟩ := Option.ne_none_iff_exists'.mp (mt hconflict.mp hapart)
    refine .inr ⟨hapart, key, nested, ?_⟩
    rw [hkeys]

/-- Nothing but a refusal comes of overrides. -/
theorem nestOverrides_cases (loads : String → Option Value) (raws : List String) :
    (∃ r, nestOverrides loads raws = .ok r) ∨
      ∃ e, nestOverrides loads raws = .error (.valueError e) := by
  by_cases hparse : ∀ raw ∈ raws, ∃ o, parseOverride loads raw = .ok o
  · rcases nestOverrides_eq hparse with ⟨-, es, hes, -⟩ | ⟨-, key, nested, herror⟩
    · exact .inl ⟨_, hes⟩
    · exact .inr ⟨_, herror⟩
  · right
    cases hos : raws.mapM (parseOverride loads) with
    | error e =>
      refine ⟨e, ?_⟩
      rw [nestOverrides, hos]
      rfl
    | ok os => exact absurd (parses_of_mapM hos) hparse

end Raw

end SrvBackup.Adapters
