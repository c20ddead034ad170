import SrvBackup.Text.Lines
import Mathlib.Algebra.Order.Ring.Unbundled.Rat
import Mathlib.Data.List.AList

/-!
# The `[email]` section

`translate` turns the keys of a configuration file into the fields of `EmailConfig`, and leaves out
the values that mean "not configured". Before that `refusedKeys` collects what is wrong with the
keys, and a section with any such problem is refused.
-/
namespace SrvBackup.Adapters

open SrvBackup.Text

/-- What a merged configuration can hold; `other` is a value of any further type. A float stands for
the number it denotes. -/
inductive PyValue where
  | none
  | bool (b : Bool)
  | int (i : Int)
  | float (x : ℚ)
  | infinity (negative : Bool)
  | nan
  | str (s : String)
  | list (items : List PyValue)
  | tuple (items : List PyValue)
  | set (items : List PyValue)
  | frozenset (items : List PyValue)
  | mapping (type : String) (entries : List (String × PyValue))
  | other (type : String)

namespace PyValue

/-- `type(value).__name__`. -/
def typeName : PyValue → String
  | none => "NoneType"
  | bool _ => "bool"
  | int _ => "int"
  | float _ | infinity _ | nan => "float"
  | str _ => "str"
  | list _ => "list"
  | tuple _ => "tuple"
  | set _ => "set"
  | frozenset _ => "frozenset"
  | mapping type _ => type
  | other type => type

/-- `isinstance(value, str) and not value.strip()`. -/
def isBlankText : PyValue → Bool
  | str s => strip s = ""
  | _ => false

end PyValue

/-- A mapping with text keys. -/
abbrev Section := AList fun _ : String => PyValue

/-! ## Keys -/

def attachmentsKey : String := "attachments"

/-- The `[email]` mapping. What it holds for the attachments can be a mapping as well, in which no
key occurs twice either. -/
structure EmailSection where
  toSection : Section
  nodup_table : ∀ type table, toSection.lookup attachmentsKey = some (.mapping type table) →
    (table.map Prod.fst).Nodup

def attachmentPrefix : String := "attachment_"

def fileKeyToField : List (String × String) :=
  [("smtp_hosts", "smtphosts"), ("use_starttls", "smtp_use_starttls"), ("timeout", "smtp_timeout"),
    ("starttls_verify", "smtp_starttls_verify"), ("local_hostname", "smtp_local_hostname"),
    ("delivery_deadline", "smtp_delivery_deadline")]

/-- `SECTION_KEYS`. -/
def sectionKeys : List String :=
  fileKeyToField.map Prod.fst ++
    ["from_address", "recipients", "smtp_username", "smtp_password",
      "raise_on_missing_attachments", "raise_on_invalid_recipient", "recipient_max_count",
      attachmentsKey]

/-- `ATTACHMENT_KEYS`. -/
def attachmentKeys : List String :=
  ["allowed_extensions", "blocked_extensions", "allowed_directories", "blocked_directories",
    "max_size_bytes", "max_count", "allow_symlinks", "raise_on_security_violation"]

def blankTextMeansUnset : List String :=
  ["smtp_hosts", "recipients", "from_address", "smtp_username", "smtp_password", "local_hostname"]

def emptyListMeansDefault : List String :=
  ["allowed_extensions", "blocked_extensions", "allowed_directories", "blocked_directories"]

def zeroMeansNoLimit : List String :=
  ["max_size_bytes", "max_count", "recipient_max_count", "delivery_deadline"]

def oneOrMany : List String := ["smtp_hosts", "recipients"]

/-- The fields of `EmailConfig`, those of its base class included. -/
def emailConfigFields : List String :=
  ["smtphosts", "from_address", "recipients", "smtp_username", "smtp_password",
    "smtp_use_starttls", "smtp_starttls_verify", "smtp_timeout", "smtp_local_hostname",
    "smtp_delivery_deadline", "recipient_max_count", "raise_on_missing_attachments",
    "raise_on_invalid_recipient", "attachment_allowed_extensions",
    "attachment_blocked_extensions", "attachment_allowed_directories",
    "attachment_blocked_directories", "attachment_max_size_bytes", "attachment_max_count",
    "attachment_allow_symlinks", "attachment_raise_on_security_violation",
    "attachment_allow_empty_blocklists"]

/-- An order in which the set of the attachment lists is gone through; Python promises none. -/
abbrev ListOrder := {keys : List String // keys.Perm emptyListMeansDefault}

/-! ## Values -/

def isListForm : PyValue → Bool
  | .none | .list _ | .tuple _ | .set _ | .frozenset _ => true
  | value => value.isBlankText

def hasBlankEntry : PyValue → Bool
  | .list items | .tuple items => items.any PyValue.isBlankText
  | _ => false

def meansUnset (key : String) (value : PyValue) : Bool :=
  if key ∈ emptyListMeansDefault then
    match value with
    | .none | .list [] | .tuple [] => true
    | value => value.isBlankText
  else key ∈ blankTextMeansUnset && value.isBlankText

/-- `type(value) in (int, float) and value == 0`. -/
def isZero : PyValue → Bool
  | .int i => i = 0
  | .float x => x = 0
  | _ => false

def isStr : PyValue → Bool
  | .str _ => true
  | _ => false

def fieldValue (key : String) (value : PyValue) : PyValue :=
  if key ∈ oneOrMany ∧ isStr value then .list [value]
  else if key ∈ zeroMeansNoLimit ∧ isZero value then .none
  else value

/-! ## Refusals -/

/-- The error types that are used of the validation library. -/
inductive ProblemType where
  | extraForbidden
  | dictType
  | valueError
  deriving DecidableEq, Repr

/-- A problem at a location, with the message of the `ValueError` it carries. -/
structure Problem where
  type : ProblemType
  loc : List String
  error : Option String := none

def listForm : String :=
  "a list: a TOML array, or in an environment variable a JSON array such as [\".pdf\", \".txt\"]"

def wrongListForm (value : PyValue) : String :=
  "expected " ++ listForm ++ "; got " ++ value.typeName

def blankEntry : String := "an entry is blank; remove it"

/-- A problem for each attachment list whose value is refused, in the order given. -/
def refusedLists (order : ListOrder) (table : List (String × PyValue)) (refused : PyValue → Bool)
    (error : PyValue → String) : List Problem :=
  order.val.filterMap fun key => match table.lookup key with
    | some value =>
      if refused value then some ⟨.valueError, [attachmentsKey, key], some (error value)⟩ else none
    | none => none

/-- The problems in the table of attachments. -/
def refusedInTable (order : ListOrder) (table : List (String × PyValue)) : List Problem :=
  ((table.map Prod.fst).filter (· ∉ attachmentKeys)).map
      (fun key => ⟨.extraForbidden, [attachmentsKey, key], none⟩) ++
    refusedLists order table (fun value => !isListForm value) wrongListForm ++
    refusedLists order table hasBlankEntry fun _ => blankEntry

def refusedKeys (order : ListOrder) (sec : EmailSection) : List Problem :=
  let refused := (sec.toSection.keys.filter (· ∉ sectionKeys)).map fun key =>
    (⟨.extraForbidden, [key], none⟩ : Problem)
  match (sec.toSection.lookup attachmentsKey).getD (.mapping "dict" []) with
  | .mapping _ table => refused ++ refusedInTable order table
  | _ => refused ++ [⟨.dictType, [attachmentsKey], none⟩]

/-! ## Translation -/

def fieldFor (key : String) : String := (fileKeyToField.lookup key).getD key

def attachmentFields (table : List (String × PyValue)) : List (String × PyValue) :=
  (table.filter fun entry => !meansUnset entry.1 entry.2).map fun entry =>
    (attachmentPrefix ++ entry.1, fieldValue entry.1 entry.2)

/-- `fields.update`. -/
def update (fields : Section) (entries : List (String × PyValue)) : Section :=
  entries.foldl (fun fields entry => fields.insert entry.1 entry.2) fields

/-- One key of the section. What is no table has been refused before. -/
def translateEntry (fields : Section) (key : String) (value : PyValue) : Section :=
  if key = attachmentsKey then
    match value with
    | .mapping _ table => update fields (attachmentFields table)
    | _ => fields
  else if meansUnset key value then fields
  else fields.insert (fieldFor key) (fieldValue key value)

/-- `_translate`, with the problems of the `ValidationError`. -/
def translate (order : ListOrder) (sec : EmailSection) : Except (List Problem) Section :=
  let refused := refusedKeys order sec
  if refused = [] then
    .ok (sec.toSection.entries.foldl
      (fun fields entry => translateEntry fields entry.1 entry.2) ∅)
  else .error refused

/-! ## Locations of problems -/

theorem map_loc_refusedLists (order : ListOrder) (table : List (String × PyValue))
    (refused : PyValue → Bool) (error : PyValue → String) :
    (refusedLists order table refused error).map Problem.loc =
      (order.val.filter fun key => (table.lookup key).any refused).map
        fun key => [attachmentsKey, key] := by
  unfold refusedLists
  induction order.val with
  | nil => rfl
  | cons key keys ih =>
    cases hlookup : table.lookup key with
    | none => simp [hlookup, ih]
    | some value => cases hrefused : refused value <;> simp [hlookup, hrefused, ih]

/-- The problems in the table are at keys of it. -/
theorem map_loc_refusedInTable (order : ListOrder) (table : List (String × PyValue)) :
    (refusedInTable order table).map Problem.loc =
      ((table.map Prod.fst).filter (· ∉ attachmentKeys) ++
        (order.val.filter fun key => (table.lookup key).any fun value => !isListForm value) ++
        order.val.filter fun key => (table.lookup key).any hasBlankEntry).map
        fun key => [attachmentsKey, key] := by
  simp only [refusedInTable, List.map_append, map_loc_refusedLists, List.map_map]
  rfl

/-- What is not in list form has no entry that could be blank. -/
theorem hasBlankEntry_of_not_isListForm {value : PyValue} (h : isListForm value = false) :
    hasBlankEntry value = false := by
  cases value <;> simp_all [isListForm, hasBlankEntry]

theorem lookup_eq_some_iff_mem {table : List (String × PyValue)}
    (hkeys : (table.map Prod.fst).Nodup) (key : String) (value : PyValue) :
    table.lookup key = some value ↔ (key, value) ∈ table := by
  induction table with
  | nil => simp
  | cons entry table ih =>
    obtain ⟨key', v⟩ := entry
    obtain ⟨hkey, htable⟩ := List.nodup_cons.mp hkeys
    have hnot : (key', value) ∉ table := fun hmem =>
      hkey (List.mem_map.mpr ⟨(key', value), hmem, rfl⟩)
    by_cases h : key = key'
    · subst h
      simp only [List.lookup_cons_self, Option.some.injEq, List.mem_cons, Prod.mk.injEq, true_and,
        hnot, or_false]
      exact eq_comm
    · have hne : (key == key') = false := by simpa using h
      simp only [List.lookup_cons, hne, ih htable]
      simp [h]

/-! ## Lookups -/

theorem lookup_insert_eq_ite (fields : Section) (key f : String) (value : PyValue) :
    (fields.insert key value).lookup f = if f = key then some value else fields.lookup f := by
  by_cases hf : f = key
  · rw [if_pos hf, hf, AList.lookup_insert]
  · rw [if_neg hf, AList.lookup_insert_ne hf]

/-- Entries whose keys are distinct end up in the fields, whatever their order. -/
theorem lookup_update {entries : List (String × PyValue)} (hkeys : (entries.map Prod.fst).Nodup)
    (fields : Section) (f : String) (value : PyValue) :
    (update fields entries).lookup f = some value ↔
      (f, value) ∈ entries ∨ f ∉ entries.map Prod.fst ∧ fields.lookup f = some value := by
  induction entries generalizing fields with
  | nil => simp [update]
  | cons entry entries ih =>
    obtain ⟨key, v⟩ := entry
    obtain ⟨hkey, hentries⟩ := List.nodup_cons.mp hkeys
    have hnot : ∀ w, (key, w) ∉ entries := fun w hw =>
      hkey (List.mem_map.mpr ⟨(key, w), hw, rfl⟩)
    rw [update, List.foldl_cons, ← update, ih hentries, lookup_insert_eq_ite]
    grind

theorem update_append (fields : Section) (entries entries' : List (String × PyValue)) :
    update fields (entries ++ entries') = update (update fields entries) entries' := by
  simp only [update, List.foldl_append]

end SrvBackup.Adapters
