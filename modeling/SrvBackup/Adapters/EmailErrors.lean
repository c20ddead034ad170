import SrvBackup.Adapters.EmailConfig
import SrvBackup.Text.Words

/-!
# What is said about a refused `[email]` section

`describeValidationError` renders the items of a validation error as one line for each. The
validation library names fields, `fileKeyFor` names the key that is written for one.
-/
namespace SrvBackup.Adapters

open SrvBackup.Text

/-- What Python says of a character: whether words have it, whether it can be printed, and how
`repr` escapes it. -/
structure PyChars where
  isWord : Char → Bool
  isPrintable : Char → Bool
  escape : Char → String

/-- One item of `ValidationError.errors`; `raised` is the text of the `ValueError` in it. -/
structure ErrorDetails where
  type : String
  loc : List String
  msg : String
  raised : Option String

def fieldToFileKey : List (String × String) := fileKeyToField.map Prod.swap

/-- `s.removeprefix(pre)`. -/
def removePrefix (pre s : String) : String :=
  if pre.toList <+: s.toList then String.ofList (s.toList.drop pre.length) else s

/-- `_file_key_for`. -/
def fileKeyFor (field : String) : String :=
  if attachmentPrefix.toList <+: field.toList then
    attachmentsKey ++ "." ++ removePrefix attachmentPrefix field
  else (fieldToFileKey.lookup field).getD field

def emailSectionName : String := "email"

/-- `_configuration_key`. -/
def configurationKey : List String → String
  | [] => emailSectionName
  | part :: parts => ".".intercalate (emailSectionName :: fileKeyFor part :: parts)

def valueErrorPrefix : String := "Value error, "

/-- A word that is a field name: one of the fields with a key of another name, or the name of an
attachment setting. -/
def IsFieldName (word : String) : Prop :=
  word ∈ fieldToFileKey.map Prod.fst ∨
    attachmentPrefix.toList <+: word.toList ∧ word ≠ attachmentPrefix

instance (word : String) : Decidable (IsFieldName word) := by
  unfold IsFieldName
  infer_instance

/-- The replacement for a word. -/
def shownWord (word : List Char) : List Char :=
  if IsFieldName (String.ofList word) then (fileKeyFor (String.ofList word)).toList else word

section Lines

variable (chars : PyChars)

/-- `_FIELD_NAME_IN_TEXT.sub`: the pattern stands between two ends of words and matches no other
character, so it matches whole words. -/
def showFileKeys (text : String) : String :=
  String.ofList (mapWords chars.isWord shownWord text.toList)

/-- `_reason`. -/
def reason (item : ErrorDetails) : String :=
  showFileKeys chars (match item.raised with
    | some text => text
    | none =>
      if item.type = "value_error" then removePrefix valueErrorPrefix item.msg else item.msg)

/-- `_escaped`. -/
def escaped (part : String) : String :=
  String.join (part.toList.map fun c =>
    if chars.isPrintable c then String.singleton c else chars.escape c)

def line (item : ErrorDetails) : String :=
  if item.type = "extra_forbidden" then
    ".".intercalate (emailSectionName :: item.loc.map (escaped chars)) ++ ": unknown key"
  else configurationKey item.loc ++ ": " ++ reason chars item

end Lines

/-- The name of an error type. -/
def ProblemType.name : ProblemType → String
  | .extraForbidden => "extra_forbidden"
  | .dictType => "dict_type"
  | .valueError => "value_error"

end SrvBackup.Adapters
