import SrvBackup.Adapters.EmailConfig

/-!
# What becomes of the keys of `[email]`

A section is refused exactly if a key in it offends, and the refusal names these keys. Otherwise
every key has a field of its own, which gets the value of the key, unless that means "not
configured".
-/
namespace SrvBackup.Specification

open SrvBackup.Text SrvBackup.Adapters

/-- A key that the section can hold, at the top or in the table of attachments. -/
inductive FileKey where
  | top (key : String)
  | attachment (key : String)
  deriving DecidableEq, Repr

namespace FileKey

def loc : FileKey → List String
  | top key => [key]
  | attachment key => ["attachments", key]

/-- The field that a key stands for. -/
def field : FileKey → String
  | top "smtp_hosts" => "smtphosts"
  | top "use_starttls" => "smtp_use_starttls"
  | top "timeout" => "smtp_timeout"
  | top "starttls_verify" => "smtp_starttls_verify"
  | top "local_hostname" => "smtp_local_hostname"
  | top "delivery_deadline" => "smtp_delivery_deadline"
  | top key => key
  | attachment key => "attachment_" ++ key

/-- The keys that have a value of their own. -/
def known : List FileKey :=
  (sectionKeys.filter (· ≠ attachmentsKey)).map top ++ attachmentKeys.map attachment

/-- The attachment lists. -/
def lists : List FileKey :=
  [attachment "allowed_extensions", attachment "blocked_extensions",
    attachment "allowed_directories", attachment "blocked_directories"]

/-- The keys for which a blank text means "not configured". -/
def blankable : List FileKey :=
  [top "smtp_hosts", top "recipients", top "from_address", top "smtp_username",
    top "smtp_password", top "local_hostname"]

/-- The keys whose value may be one text in place of a list. -/
def oneOrMany : List FileKey := [top "smtp_hosts", top "recipients"]

/-- The keys whose value is a limit. -/
def limits : List FileKey :=
  [top "recipient_max_count", top "delivery_deadline", attachment "max_size_bytes",
    attachment "max_count"]

end FileKey

/-- The section gives a value to a key. -/
inductive Gives (sec : EmailSection) : FileKey → PyValue → Prop
  | top {key value} : sec.toSection.lookup key = some value → key ≠ "attachments" →
      Gives sec (.top key) value
  | attachment {type table key value} :
      sec.toSection.lookup "attachments" = some (.mapping type table) →
      (key, value) ∈ table → Gives sec (.attachment key) value

/-- What is wrong with a key of the section. -/
inductive Offends (sec : EmailSection) : FileKey → Prop
  | unknown {key} : key ∈ sec.toSection → key ∉ sectionKeys → Offends sec (.top key)
  | noTable {value} : sec.toSection.lookup "attachments" = some value →
      (∀ type table, value ≠ .mapping type table) → Offends sec (.top "attachments")
  | unknownInTable {key value} : Gives sec (.attachment key) value → key ∉ attachmentKeys →
      Offends sec (.attachment key)
  | wrongForm {key value} : Gives sec (.attachment key) value → .attachment key ∈ FileKey.lists →
      isListForm value = false → Offends sec (.attachment key)
  | blankEntry {key value} : Gives sec (.attachment key) value → .attachment key ∈ FileKey.lists →
      hasBlankEntry value → Offends sec (.attachment key)

/-- The values that mean "not configured" for a key. -/
inductive NotConfigured : FileKey → PyValue → Prop
  | blank {key value} : key ∈ FileKey.blankable ++ FileKey.lists → value.isBlankText →
      NotConfigured key value
  | none {key} : key ∈ FileKey.lists → NotConfigured key .none
  | emptyList {key} : key ∈ FileKey.lists → NotConfigured key (.list [])
  | emptyTuple {key} : key ∈ FileKey.lists → NotConfigured key (.tuple [])

/-- What the field of a key gets for a value. -/
def arriving (key : FileKey) (value : PyValue) : PyValue :=
  if key ∈ FileKey.oneOrMany ∧ isStr value then .list [value]
  else if key ∈ FileKey.limits ∧ isZero value then .none
  else value

/-- A list, tuple or set of at least one entry. -/
inductive HasEntry : PyValue → Prop
  | list {item items} : HasEntry (.list (item :: items))
  | tuple {item items} : HasEntry (.tuple (item :: items))
  | set {item items} : HasEntry (.set (item :: items))
  | frozenset {item items} : HasEntry (.frozenset (item :: items))

/-- The refusal names the keys that offend, each once and no other key. -/
structure Refused (sec : EmailSection) (problems : List Problem) : Prop where
  offended : ∃ key, Offends sec key
  once : (problems.map Problem.loc).Nodup
  named : ∀ loc, loc ∈ problems.map Problem.loc ↔ ∃ key, Offends sec key ∧ key.loc = loc

/-- The fields hold what the keys of the section give. -/
structure Translated (sec : EmailSection) (fields : Section) : Prop where
  clean : ∀ key, ¬ Offends sec key
  field_mem : ∀ key value, Gives sec key value → key.field ∈ emailConfigFields
  field_inj : ∀ key value key' value', Gives sec key value → Gives sec key' value' →
    key.field = key'.field → key = key'
  lookup : ∀ field value, fields.lookup field = some value ↔
    ∃ key given, Gives sec key given ∧ ¬ NotConfigured key given ∧ key.field = field ∧
      arriving key given = value
  lists : ∀ key ∈ FileKey.lists, ∀ value, Gives sec key value → HasEntry value →
    fields.lookup key.field = some value

/-! ## Keys -/

theorem FileKey.loc_injective : Function.Injective FileKey.loc := by
  rintro (key | key) (key' | key') h <;> simp_all [FileKey.loc]

theorem FileKey.field_inj {key key' : FileKey} (hkey : key ∈ known) (hkey' : key' ∈ known)
    (h : key.field = key'.field) : key = key' := by
  have hnodup : (known.map FileKey.field).Nodup := by decide +kernel
  exact List.inj_on_of_nodup_map hnodup hkey hkey' h

theorem FileKey.field_mem {key : FileKey} (hkey : key ∈ known) :
    key.field ∈ emailConfigFields := by
  have hall : ∀ key ∈ known, key.field ∈ emailConfigFields := by decide +kernel
  exact hall key hkey

/-! ## Refusals -/

section Table

variable {order : ListOrder} {table : List (String × PyValue)}

/-- The keys of the table at which there is a problem. -/
def offendingKeys (order : ListOrder) (table : List (String × PyValue)) : List String :=
  (table.map Prod.fst).filter (· ∉ attachmentKeys) ++
    (order.val.filter fun key => (table.lookup key).any fun value => !isListForm value) ++
    order.val.filter fun key => (table.lookup key).any hasBlankEntry

theorem nodup_offendingKeys (hkeys : (table.map Prod.fst).Nodup) :
    (offendingKeys order table).Nodup := by
  have horder : order.val.Nodup := order.property.nodup_iff.mpr (by decide)
  have hknown : ∀ key ∈ order.val, key ∈ attachmentKeys := by
    intro key hkey
    have hall : ∀ key ∈ emptyListMeansDefault, key ∈ attachmentKeys := by decide
    exact hall key (order.property.mem_iff.mp hkey)
  refine List.nodup_append.mpr ⟨List.nodup_append.mpr ⟨hkeys.filter _, horder.filter _, ?_⟩,
    horder.filter _, ?_⟩
  · rintro key hkey _ hkey' rfl
    have hunknown := (List.mem_filter.mp hkey).2
    simp only [hknown key (List.mem_filter.mp hkey').1, not_true, decide_false] at hunknown
    contradiction
  · rintro key hkey _ hkey' rfl
    obtain ⟨hmem, hblank⟩ := List.mem_filter.mp hkey'
    obtain ⟨value, hvalue, hblank⟩ := (Option.any_eq_true _ _).mp hblank
    rcases List.mem_append.mp hkey with h | h
    · have hunknown := (List.mem_filter.mp h).2
      simp only [hknown key hmem, not_true, decide_false] at hunknown
      contradiction
    · obtain ⟨value', hvalue', hform⟩ := (Option.any_eq_true _ _).mp (List.mem_filter.mp h).2
      obtain rfl : value = value' := by rw [hvalue] at hvalue'; exact Option.some.inj hvalue'
      have hform : isListForm value = false := by simpa using hform
      rw [hasBlankEntry_of_not_isListForm hform] at hblank
      contradiction

theorem mem_offendingKeys_iff (hkeys : (table.map Prod.fst).Nodup) (key : String) :
    key ∈ offendingKeys order table ↔ ∃ value, (key, value) ∈ table ∧ (key ∉ attachmentKeys ∨
      key ∈ emptyListMeansDefault ∧ (isListForm value = false ∨ hasBlankEntry value)) := by
  simp only [offendingKeys, List.mem_append, List.mem_filter, Option.any_eq_true,
    order.property.mem_iff, lookup_eq_some_iff_mem hkeys, List.mem_map, Prod.exists,
    decide_eq_true_eq]
  constructor
  · rintro ((⟨⟨key, value, hmem, rfl⟩, hkey⟩ | ⟨hkey, value, hmem, hform⟩) |
      ⟨hkey, value, hmem, hblank⟩)
    · exact ⟨value, hmem, .inl hkey⟩
    · exact ⟨value, hmem, .inr ⟨hkey, .inl (by simpa using hform)⟩⟩
    · exact ⟨value, hmem, .inr ⟨hkey, .inr hblank⟩⟩
  · rintro ⟨value, hmem, hkey | ⟨hkey, hform | hblank⟩⟩
    · exact .inl (.inl ⟨⟨key, value, hmem, rfl⟩, hkey⟩)
    · exact .inl (.inr ⟨hkey, value, hmem, by simpa using hform⟩)
    · exact .inr ⟨hkey, value, hmem, hblank⟩

end Table

section Refusals

variable {order : ListOrder} {sec : EmailSection}

theorem mem_lists_iff {key : String} :
    FileKey.attachment key ∈ FileKey.lists ↔ key ∈ emptyListMeansDefault := by
  simp [FileKey.lists, emptyListMeansDefault]

/-- A key of the table offends exactly if there is a problem at it. -/
theorem offends_attachment_iff {type : String} {table : List (String × PyValue)}
    (htable : sec.toSection.lookup attachmentsKey = some (.mapping type table)) (key : String) :
    Offends sec (.attachment key) ↔ key ∈ offendingKeys order table := by
  have hgives : ∀ value, Gives sec (.attachment key) value → (key, value) ∈ table := by
    rintro value (_ | ⟨hlookup, hmem⟩)
    have heq := Option.some.inj (hlookup.symm.trans htable)
    injection heq with _ heq
    exact heq ▸ hmem
  rw [mem_offendingKeys_iff (sec.nodup_table type table htable)]
  constructor
  · rintro (_ | _ | ⟨hgive, hkey⟩ | ⟨hgive, hkey, hform⟩ | ⟨hgive, hkey, hblank⟩)
    · exact ⟨_, hgives _ hgive, .inl hkey⟩
    · exact ⟨_, hgives _ hgive, .inr ⟨mem_lists_iff.mp hkey, .inl hform⟩⟩
    · exact ⟨_, hgives _ hgive, .inr ⟨mem_lists_iff.mp hkey, .inr hblank⟩⟩
  · rintro ⟨value, hmem, hkey | ⟨hkey, hform | hblank⟩⟩
    · exact .unknownInTable (.attachment htable hmem) hkey
    · exact .wrongForm (.attachment htable hmem) (mem_lists_iff.mpr hkey) hform
    · exact .blankEntry (.attachment htable hmem) (mem_lists_iff.mpr hkey) hblank

/-- Without a table no key of a table offends. -/
theorem not_offends_attachment
    (hnone : ∀ type table, sec.toSection.lookup attachmentsKey ≠ some (.mapping type table))
    (key : String) : ¬ Offends sec (.attachment key) := by
  have hgives : ∀ value, ¬ Gives sec (.attachment key) value := by
    rintro value (_ | ⟨hlookup, -⟩)
    exact hnone _ _ hlookup
  rintro (_ | _ | ⟨hgive, -⟩ | ⟨hgive, -⟩ | ⟨hgive, -⟩) <;> exact hgives _ hgive

theorem offends_top_iff (key : String) :
    Offends sec (.top key) ↔ key ∈ sec.toSection.keys ∧ key ∉ sectionKeys ∨
      key = attachmentsKey ∧ ∃ value, sec.toSection.lookup attachmentsKey = some value ∧
        ∀ type table, value ≠ .mapping type table := by
  constructor
  · rintro (⟨hmem, hkey⟩ | ⟨hlookup, hvalue⟩)
    · exact .inl ⟨AList.mem_keys.mp hmem, hkey⟩
    · exact .inr ⟨rfl, _, hlookup, hvalue⟩
  · rintro (⟨hmem, hkey⟩ | ⟨rfl, value, hlookup, hvalue⟩)
    · exact .unknown (AList.mem_keys.mpr hmem) hkey
    · exact .noTable hlookup hvalue

/-- The keys of the section at which there is a problem, in the order of the problems. -/
def refusedFileKeys (order : ListOrder) (sec : EmailSection) : List FileKey :=
  (sec.toSection.keys.filter (· ∉ sectionKeys)).map .top ++
    match (sec.toSection.lookup attachmentsKey).getD (.mapping "dict" []) with
    | .mapping _ table => (offendingKeys order table).map .attachment
    | _ => [.top attachmentsKey]

theorem map_loc_refusedKeys :
    (refusedKeys order sec).map Problem.loc = (refusedFileKeys order sec).map FileKey.loc := by
  unfold refusedKeys refusedFileKeys
  cases (sec.toSection.lookup attachmentsKey).getD (.mapping "dict" []) <;>
    simp [map_loc_refusedInTable, offendingKeys, FileKey.loc, attachmentsKey, Function.comp_def]

/-- The section has no attachments, a table of them, or something else in its place. -/
theorem attachments_cases (sec : EmailSection) :
    sec.toSection.lookup attachmentsKey = none ∨
    (∃ type table, sec.toSection.lookup attachmentsKey = some (.mapping type table)) ∨
    ∃ value, sec.toSection.lookup attachmentsKey = some value ∧
      ∀ type table, value ≠ .mapping type table := by
  cases hlookup : sec.toSection.lookup attachmentsKey with
  | none => exact .inl rfl
  | some value =>
    by_cases htable : ∃ type table, value = .mapping type table
    · obtain ⟨type, table, rfl⟩ := htable
      exact .inr (.inl ⟨type, table, rfl⟩)
    · exact .inr (.inr ⟨value, rfl, fun type table h => htable ⟨type, table, h⟩⟩)

theorem refusedFileKeys_of_none (hlookup : sec.toSection.lookup attachmentsKey = none) :
    refusedFileKeys order sec =
      (sec.toSection.keys.filter (· ∉ sectionKeys)).map .top := by
  simp [refusedFileKeys, hlookup, offendingKeys]

theorem refusedFileKeys_of_table {type : String} {table : List (String × PyValue)}
    (hlookup : sec.toSection.lookup attachmentsKey = some (.mapping type table)) :
    refusedFileKeys order sec = (sec.toSection.keys.filter (· ∉ sectionKeys)).map .top ++
      (offendingKeys order table).map .attachment := by
  simp [refusedFileKeys, hlookup]

theorem refusedFileKeys_of_noTable {value : PyValue}
    (hlookup : sec.toSection.lookup attachmentsKey = some value)
    (hvalue : ∀ type table, value ≠ .mapping type table) :
    refusedFileKeys order sec =
      (sec.toSection.keys.filter (· ∉ sectionKeys)).map .top ++ [.top attachmentsKey] := by
  rw [refusedFileKeys, hlookup, Option.getD_some]
  cases value with
  | mapping type table => exact absurd rfl (hvalue type table)
  | _ => rfl

theorem mem_refusedFileKeys_iff (key : FileKey) :
    key ∈ refusedFileKeys order sec ↔ Offends sec key := by
  rcases attachments_cases sec with h | ⟨type, table, h⟩ | ⟨value, h, hvalue⟩
  · have hnone := @not_offends_attachment sec (by simp [h])
    rw [refusedFileKeys_of_none h]
    cases key <;> simp [offends_top_iff, h, hnone]
  · rw [refusedFileKeys_of_table h]
    cases key <;> simp [offends_top_iff, h, @offends_attachment_iff order sec _ _ h]
  · have hnone := @not_offends_attachment sec (by simpa [h] using hvalue)
    rw [refusedFileKeys_of_noTable h hvalue]
    cases key <;> simp [offends_top_iff, h, hnone, hvalue]

theorem nodup_refusedFileKeys : (refusedFileKeys order sec).Nodup := by
  have htop : Function.Injective FileKey.top := fun _ _ h => FileKey.top.inj h
  have hattachment : Function.Injective FileKey.attachment := fun _ _ h => FileKey.attachment.inj h
  have hsection : ((sec.toSection.keys.filter (· ∉ sectionKeys)).map FileKey.top).Nodup :=
    (sec.toSection.keys_nodup.filter _).map htop
  rcases attachments_cases sec with h | ⟨type, table, h⟩ | ⟨value, h, hvalue⟩
  · rw [refusedFileKeys_of_none h]
    exact hsection
  · rw [refusedFileKeys_of_table h]
    have htable := @nodup_offendingKeys order table (sec.nodup_table type table h)
    refine hsection.append (htable.map hattachment) ?_
    simp only [List.disjoint_left, List.mem_map]
    rintro _ ⟨key, -, rfl⟩ ⟨key', -, hkey⟩
    contradiction
  · rw [refusedFileKeys_of_noTable h hvalue]
    have hknown : attachmentsKey ∈ sectionKeys := by decide
    exact hsection.append (List.nodup_singleton _) (by simp [hknown])

/-- A section with a problem is refused, with the keys that offend. -/
theorem refused_refusedKeys (hproblem : refusedKeys order sec ≠ []) :
    Refused sec (refusedKeys order sec) := by
  refine ⟨?_, ?_, fun loc => ?_⟩
  · have hkeys : refusedFileKeys order sec ≠ [] := by
      intro hnone
      have hlocs := @map_loc_refusedKeys order sec
      rw [hnone] at hlocs
      exact hproblem (List.map_eq_nil_iff.mp hlocs)
    obtain ⟨key, hkey⟩ := List.exists_mem_of_ne_nil _ hkeys
    exact ⟨key, mem_refusedFileKeys_iff key |>.mp hkey⟩
  · rw [map_loc_refusedKeys]
    exact nodup_refusedFileKeys.map FileKey.loc_injective
  · simp only [map_loc_refusedKeys, List.mem_map, mem_refusedFileKeys_iff]

theorem not_offends (hnone : refusedKeys order sec = []) (key : FileKey) : ¬ Offends sec key := by
  intro hkey
  have hmem : key.loc ∈ (refusedFileKeys order sec).map FileKey.loc :=
    List.mem_map_of_mem ((mem_refusedFileKeys_iff key).mpr hkey)
  rw [← map_loc_refusedKeys, hnone] at hmem
  contradiction

end Refusals

/-! ## Fields -/

/-- The key as it stands in its table. -/
def FileKey.name : FileKey → String
  | top key => key
  | attachment key => key

theorem FileKey.fieldFor_eq (key : String) : fieldFor key = (top key).field := by
  unfold fieldFor fileKeyToField field
  split
  case h_7 hname₁ hname₂ hname₃ hname₄ hname₅ hname₆ heq =>
    obtain rfl := FileKey.top.inj heq
    simp only [List.lookup_cons, beq_false_of_ne hname₁, beq_false_of_ne hname₂,
      beq_false_of_ne hname₃, beq_false_of_ne hname₄, beq_false_of_ne hname₅,
      beq_false_of_ne hname₆, List.lookup_nil, Option.getD_none]
  case h_8 heq => contradiction
  all_goals
    obtain rfl := FileKey.top.inj ‹_›
    rfl

section Known

variable {key : FileKey} (hkey : key ∈ FileKey.known)

include hkey

/-- No key of the table has the name of a key at the top that is treated differently. -/
theorem FileKey.name_mem :
    (key.name ∈ emptyListMeansDefault ↔ key ∈ FileKey.lists) ∧
    (key.name ∈ blankTextMeansUnset ↔ key ∈ FileKey.blankable) ∧
    (key.name ∈ Adapters.oneOrMany ↔ key ∈ FileKey.oneOrMany) ∧
    (key.name ∈ zeroMeansNoLimit ↔ key ∈ FileKey.limits) := by
  revert key
  decide +kernel

theorem FileKey.meansUnset_iff (value : PyValue) :
    meansUnset key.name value ↔ NotConfigured key value := by
  obtain ⟨hlists, hblank, -, -⟩ := FileKey.name_mem hkey
  simp only [meansUnset, hlists, hblank]
  split
  case isTrue hlist =>
    constructor
    · intro h
      split at h
      · exact .none hlist
      · exact .emptyList hlist
      · exact .emptyTuple hlist
      · exact .blank (List.mem_append_right _ hlist) h
    · rintro (⟨-, h⟩ | _ | _ | _)
      · split <;> trivial
      all_goals rfl
  case isFalse hlist =>
    simp only [Bool.and_eq_true, decide_eq_true_eq]
    constructor
    · rintro ⟨hmem, h⟩
      exact .blank (List.mem_append_left _ hmem) h
    · rintro (⟨hmem, h⟩ | h | h | h)
      · exact ⟨(List.mem_append.mp hmem).resolve_right hlist, h⟩
      all_goals contradiction

theorem FileKey.fieldValue_eq (value : PyValue) :
    fieldValue key.name value = arriving key value := by
  obtain ⟨-, -, hone, hlimit⟩ := FileKey.name_mem hkey
  simp only [fieldValue, arriving, hone, hlimit]

end Known

/-- The keys that an entry of the section gives values to. -/
def entryKeys (key : String) (value : PyValue) : List (FileKey × PyValue) :=
  if key = attachmentsKey then
    match value with
    | .mapping _ table => table.map fun entry => (.attachment entry.1, entry.2)
    | _ => []
  else [(.top key, value)]

/-- The keys of the section with their values. -/
def givenKeys (sec : EmailSection) : List (FileKey × PyValue) :=
  sec.toSection.entries.flatMap fun entry => entryKeys entry.1 entry.2

/-- What the fields are set to for the keys. -/
def arrivals (given : List (FileKey × PyValue)) : List (String × PyValue) :=
  (given.filter fun entry => !meansUnset entry.1.name entry.2).map fun entry =>
    (entry.1.field, fieldValue entry.1.name entry.2)

theorem translateEntry_eq (fields : Section) (key : String) (value : PyValue) :
    translateEntry fields key value = update fields (arrivals (entryKeys key value)) := by
  unfold translateEntry entryKeys
  split
  · cases value with
    | mapping type table =>
      simp [arrivals, attachmentFields, List.filter_map, Function.comp_def, FileKey.name,
        FileKey.field, attachmentPrefix]
    | _ => rfl
  · cases hunset : meansUnset key value <;>
      simp [arrivals, FileKey.name, hunset, update, FileKey.fieldFor_eq]

theorem foldl_translateEntry (entries : List ((_ : String) × PyValue)) (fields : Section) :
    entries.foldl (fun fields entry => translateEntry fields entry.1 entry.2) fields =
      update fields (arrivals (entries.flatMap fun entry => entryKeys entry.1 entry.2)) := by
  induction entries generalizing fields with
  | nil => rfl
  | cons entry entries ih =>
    rw [List.foldl_cons, ih, translateEntry_eq, List.flatMap_cons, arrivals, arrivals, arrivals,
      List.filter_append, List.map_append, update_append]

theorem mem_givenKeys_iff (sec : EmailSection) (key : FileKey) (value : PyValue) :
    (key, value) ∈ givenKeys sec ↔ Gives sec key value := by
  simp only [givenKeys, List.mem_flatMap]
  constructor
  · rintro ⟨⟨name, v⟩, hentry, hmem⟩
    have hlookup : sec.toSection.lookup name = some v := AList.mem_lookup_iff.mpr hentry
    unfold entryKeys at hmem
    split at hmem
    case isTrue hname =>
      obtain rfl : name = attachmentsKey := hname
      cases v with
      | mapping type table =>
        obtain ⟨⟨k, v⟩, htable, heq⟩ := List.mem_map.mp hmem
        injection heq with hk hv
        subst hk hv
        exact .attachment hlookup htable
      | _ => contradiction
    case isFalse hname =>
      obtain ⟨rfl, rfl⟩ := Prod.mk.inj (List.mem_singleton.mp hmem)
      exact .top hlookup hname
  · rintro (⟨hlookup, hname⟩ | ⟨hlookup, hmem⟩)
    · have hname : _ ≠ attachmentsKey := hname
      exact ⟨⟨_, value⟩, AList.mem_lookup_iff.mp hlookup, by simp [entryKeys, hname]⟩
    · refine ⟨⟨attachmentsKey, .mapping _ _⟩, AList.mem_lookup_iff.mp hlookup, ?_⟩
      rw [entryKeys, if_pos rfl]
      exact List.mem_map.mpr ⟨_, hmem, rfl⟩

/-- The key of the section under which a key is written. -/
def FileKey.origin : FileKey → String
  | top key => key
  | attachment _ => attachmentsKey

theorem origin_of_mem_entryKeys {key : String} {value : PyValue} {given : FileKey × PyValue}
    (h : given ∈ entryKeys key value) : given.1.origin = key := by
  unfold entryKeys at h
  split at h
  case isTrue hkey =>
    cases value with
    | mapping type table =>
      obtain ⟨entry, -, rfl⟩ := List.mem_map.mp h
      exact hkey.symm
    | _ => contradiction
  case isFalse =>
    rw [List.mem_singleton.mp h]
    rfl

theorem nodup_givenKeys (sec : EmailSection) : ((givenKeys sec).map Prod.fst).Nodup := by
  rw [givenKeys, List.map_flatMap, List.nodup_flatMap]
  constructor
  · rintro ⟨key, value⟩ hentry
    have hlookup : sec.toSection.lookup key = some value := AList.mem_lookup_iff.mpr hentry
    unfold entryKeys
    split
    case isTrue hkey =>
      obtain rfl : key = attachmentsKey := hkey
      cases value with
      | mapping type table =>
        have htable := sec.nodup_table type table hlookup
        have hinj : Function.Injective FileKey.attachment := fun _ _ h => FileKey.attachment.inj h
        simpa [Function.comp_def] using htable.map hinj
      | _ => exact List.nodup_nil
    case isFalse => exact List.nodup_singleton _
  · refine (List.pairwise_map.mp sec.toSection.nodupKeys).imp ?_
    intro entry entry' hne key hkey hkey'
    obtain ⟨given, hgiven, rfl⟩ := List.mem_map.mp hkey
    obtain ⟨given', hgiven', heq⟩ := List.mem_map.mp hkey'
    have horigin := origin_of_mem_entryKeys hgiven
    have horigin' := origin_of_mem_entryKeys hgiven'
    rw [heq, horigin] at horigin'
    exact hne horigin'

section Translation

variable {order : ListOrder} {sec : EmailSection}

/-- The keys of a section in which nothing offends are known. -/
theorem mem_known_of_gives (hclean : ∀ key, ¬ Offends sec key) {key : FileKey} {value : PyValue}
    (hgives : Gives sec key value) : key ∈ FileKey.known := by
  rcases hgives with ⟨hlookup, hname⟩ | ⟨hlookup, hmem⟩
  · have hmem : _ ∈ sec.toSection := AList.lookup_isSome.mp (by rw [hlookup]; rfl)
    have hsection := by_contra fun hnot => hclean _ (.unknown hmem hnot)
    have hknown : _ ∈ sectionKeys.filter fun key => key ≠ attachmentsKey :=
      List.mem_filter.mpr ⟨hsection, decide_eq_true hname⟩
    exact List.mem_append_left _ (List.mem_map_of_mem hknown)
  · have htable := by_contra fun hnot =>
      hclean _ (.unknownInTable (.attachment hlookup hmem) hnot)
    exact List.mem_append_right _ (List.mem_map_of_mem htable)

theorem nodup_arrivals (hclean : ∀ key, ¬ Offends sec key) :
    ((arrivals (givenKeys sec)).map Prod.fst).Nodup := by
  have hkeys : (((givenKeys sec).filter fun entry =>
      !meansUnset entry.1.name entry.2).map Prod.fst).Nodup :=
    (nodup_givenKeys sec).sublist ((List.filter_sublist).map _)
  have hfields := hkeys.map_on (f := FileKey.field) ?_
  · rw [arrivals, List.map_map]
    rwa [List.map_map] at hfields
  · rintro _ hkey _ hkey' heq
    obtain ⟨⟨key, value⟩, hmem, rfl⟩ := List.mem_map.mp hkey
    obtain ⟨⟨key', value'⟩, hmem', rfl⟩ := List.mem_map.mp hkey'
    have hgives := (mem_givenKeys_iff sec _ _).mp (List.mem_filter.mp hmem).1
    have hgives' := (mem_givenKeys_iff sec _ _).mp (List.mem_filter.mp hmem').1
    exact FileKey.field_inj (mem_known_of_gives hclean hgives)
      (mem_known_of_gives hclean hgives') heq

/-- A field is set by the one key that stands for it. -/
theorem lookup_update_arrivals (hclean : ∀ key, ¬ Offends sec key) (field : String)
    (value : PyValue) :
    (update ∅ (arrivals (givenKeys sec))).lookup field = some value ↔
      ∃ key given, Gives sec key given ∧ ¬ NotConfigured key given ∧ key.field = field ∧
        arriving key given = value := by
  rw [lookup_update (nodup_arrivals hclean), AList.lookup_empty]
  simp only [reduceCtorEq, and_false, or_false]
  constructor
  · intro hmem
    obtain ⟨⟨key, given⟩, hmem, heq⟩ := List.mem_map.mp hmem
    obtain ⟨hmem, hset⟩ := List.mem_filter.mp hmem
    have hgives := (mem_givenKeys_iff sec _ _).mp hmem
    have hknown := mem_known_of_gives hclean hgives
    obtain ⟨hfield, hvalue⟩ := Prod.mk.inj heq
    refine ⟨key, given, hgives, ?_, hfield, ?_⟩
    · rw [← FileKey.meansUnset_iff hknown]
      simpa using hset
    · rw [← FileKey.fieldValue_eq hknown, hvalue]
  · rintro ⟨key, given, hgives, hset, rfl, rfl⟩
    have hknown := mem_known_of_gives hclean hgives
    rw [← FileKey.meansUnset_iff hknown] at hset
    rw [← FileKey.fieldValue_eq hknown]
    have hmem : (key, given) ∈ (givenKeys sec).filter fun entry =>
        !meansUnset entry.1.name entry.2 :=
      List.mem_filter.mpr ⟨(mem_givenKeys_iff sec _ _).mpr hgives, by simpa using hset⟩
    exact List.mem_map_of_mem hmem

/-- What has an entry is configured, and is no single text and no number. -/
theorem HasEntry.arrives {key : FileKey} {value : PyValue} (h : HasEntry value) :
    ¬ NotConfigured key value ∧ arriving key value = value := by
  constructor
  · rintro (⟨-, hblank⟩ | _ | _ | _)
    · cases h <;> contradiction
    all_goals cases h
  · cases h <;> simp [arriving, isStr, isZero]

end Translation

/-- `translate` refuses a section in which a key offends, and names just these keys; every other
section it turns into fields. -/
theorem translate_spec (order : ListOrder) (sec : EmailSection) :
    match Adapters.translate order sec with
    | .error problems => Refused sec problems
    | .ok fields => Translated sec fields := by
  unfold Adapters.translate
  by_cases hproblem : refusedKeys order sec = []
  · have hclean := not_offends hproblem
    have hlookup := lookup_update_arrivals hclean
    simp only [hproblem, if_true, foldl_translateEntry]
    refine ⟨hclean, ?_, ?_, hlookup, ?_⟩
    · intro key value hgives
      exact FileKey.field_mem (mem_known_of_gives hclean hgives)
    · intro key value key' value' hgives hgives' heq
      exact FileKey.field_inj (mem_known_of_gives hclean hgives)
        (mem_known_of_gives hclean hgives') heq
    · intro key _ value hgives hentry
      obtain ⟨hset, harrives⟩ := @HasEntry.arrives key value hentry
      exact (hlookup _ _).mpr ⟨key, value, hgives, hset, rfl, harrives⟩
  · simp only [hproblem, if_false]
    exact refused_refusedKeys hproblem

end SrvBackup.Specification
