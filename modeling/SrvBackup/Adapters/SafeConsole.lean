import SrvBackup.Text.Codec

/-!
# Console output that a stream can encode

`encodeSafe` leaves a text alone that the encoding of a stream takes as it is. In any other text
the characters that it does not take give way to an ASCII form, or to what the error handler of
the stream makes of them.
-/
namespace SrvBackup.Adapters

open SrvBackup.Text

/-- `ASCII_FALLBACKS`. -/
def asciiFallbacks : List (Char × String) :=
  [('\u2713', "[OK]"), ('\u2714', "[OK]"), ('\u2705', "[OK]"), ('\u2717', "[X]"),
    ('\u2718', "[X]"), ('\u274C', "[X]"), ('\u26A0', "[!]"), ('\uFE0F', ""), ('\u2022', "-"),
    ('\u2265', ">="), ('\u2264', "<="), ('\u2192', "->"), ('\u2190', "<-"),
    ('\u2018', "'"), ('\u2019', "'"), ('\u201C', "\""), ('\u201D', "\""), ('\u2026', "...")]

def asciiForm : CodePoint → Option (List Char)
  | .scalar c => (asciiFallbacks.lookup c).map String.toList
  | .surrogate _ => none

/-- What the handler of the stream itself writes for a character; `?` if it is `strict` or refuses
the character. -/
def streamsOwnReplacement (errors : Errors) (p : CodePoint) : Replacement :=
  if errors = .strict then .text ['?'] else (errors.onEncode p).getD (.text ['?'])

def replacingUnencodable (errors : Errors) (p : CodePoint) : Option Replacement :=
  match asciiForm p with
  | some form => some (.text form)
  | none => some (streamsOwnReplacement errors p)

def asciiFallback (codec : Codec) (errors : Option Errors) (text : List CodePoint) :
    Except UnicodeError (List CodePoint) :=
  let streamErrors := errors.getD .strict
  let fallback := do
    let encoded ← codec.encodeWith (replacingUnencodable streamErrors) text
    codec.decode streamErrors encoded
  match fallback with
  | .ok safe => .ok safe
  | .error _ => do
    let encoded ← codec.encodeWith (replacingUnencodable .strict) text
    codec.decode .strict encoded

def encodeSafe (codec : Option Codec) (errors : Option Errors) (text : List CodePoint) :
    Except UnicodeError (List CodePoint) :=
  match codec with
  | none => .ok text
  | some codec =>
    match codec.encode .strict text with
    | .ok _ => .ok text
    | .error _ => asciiFallback codec errors text

/-- What reaches a stream with an encoding and an error handler, as `_SafeWriter` writes to it. -/
def safeWrite (codec : Codec) (errors : Errors) (text : List CodePoint) :
    Except UnicodeError Bytes := do
  let safe ← encodeSafe (some codec) (some errors) text
  codec.encode errors safe

/-! ## Replacements -/

theorem asciiForm_ascii {p : CodePoint} {form : List Char} (h : asciiForm p = some form) :
    ∀ c ∈ form, c.toNat < 0x80 := by
  cases p with
  | surrogate n => contradiction
  | scalar c =>
    have hascii : asciiFallbacks.all fun entry => entry.2.toList.all fun c => c.toNat < 0x80 := by
      decide +kernel
    simp only [List.all_eq_true, decide_eq_true_eq] at hascii
    obtain ⟨s, hs, rfl⟩ := Option.map_eq_some_iff.mp h
    obtain ⟨_, _, hsplit, -⟩ := List.lookup_eq_some_iff.mp hs
    exact hascii (c, s) (by rw [hsplit]; simp)

/-- A `strict` stream refuses every character. -/
theorem streamsOwnReplacement_eq (errors : Errors) (p : CodePoint) :
    streamsOwnReplacement errors p = (errors.onEncode p).getD (.text ['?']) := by
  unfold streamsOwnReplacement
  split
  case isTrue h =>
    subst h
    rfl
  case isFalse => rfl

theorem replacingUnencodable_of_form {errors : Errors} {p : CodePoint} {form : List Char}
    (h : asciiForm p = some form) : replacingUnencodable errors p = some (.text form) := by
  rw [replacingUnencodable, h]

theorem replacingUnencodable_of_none {errors : Errors} {p : CodePoint} (h : asciiForm p = none) :
    replacingUnencodable errors p = some ((errors.onEncode p).getD (.text ['?'])) := by
  rw [replacingUnencodable, h]
  exact congrArg some (streamsOwnReplacement_eq errors p)

end SrvBackup.Adapters
