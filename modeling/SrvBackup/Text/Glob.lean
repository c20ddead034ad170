import Mathlib.Data.List.Infix
import Mathlib.Tactic.Common

/-!
# File name patterns

The wildcard language of one path component: `*`, `?` and bracket classes, matched against
the whole name, case sensitively. The `**` of `Path.glob` is not part of it: two stars are read
as one. A pattern is parsed to tokens first, as the reference implementation translates it to a
regular expression, and `accepts` follows the tokens.

`accepts_literals`, `accepts_star` and `accepts_star_literals` describe the names a token
list accepts, so that a client never evaluates a pattern on an unknown name.
-/
namespace SrvBackup.Text.Glob

inductive Token where
  | star
  | any
  | cls (negated : Bool) (ranges : List (Char × Char))
  | lit (c : Char)
  deriving DecidableEq, Repr

/-- Whether a one-character token accepts `c`. -/
def Token.admits (c : Char) : Token → Bool
  | .star => false
  | .any => true
  | .cls negated ranges => negated != ranges.any fun r => decide (r.1 ≤ c ∧ c ≤ r.2)
  | .lit d => c == d

/-- The ranges of a bracket class: `a-z` is a range, every other character stands for itself. -/
def classRanges : List Char → List (Char × Char)
  | a :: '-' :: b :: rest => (a, b) :: classRanges rest
  | a :: rest => (a, a) :: classRanges rest
  | [] => []

/-- Text up to the closing bracket of a class, and what follows it. A `]` that comes first
(or right after the negation) does not close the class. -/
def splitClass (cs : List Char) : Option (Bool × List Char × List Char) :=
  let (negated, body) := match cs with
    | '!' :: rest => (true, rest)
    | _ => (false, cs)
  let (opening, body) := match body with
    | ']' :: rest => ([']'], rest)
    | _ => ([], body)
  match body.span (· != ']') with
  | (stuff, _ :: rest) => some (negated, opening ++ stuff, rest)
  | (_, []) => none

/-- Tokens of a pattern; the fuel bounds its length. -/
def tokensWithin : Nat → List Char → List Token
  | 0, _ | _, [] => []
  | n + 1, '*' :: cs => .star :: tokensWithin n cs
  | n + 1, '?' :: cs => .any :: tokensWithin n cs
  | n + 1, '[' :: cs =>
    match splitClass cs with
    | some (negated, stuff, rest) => .cls negated (classRanges stuff) :: tokensWithin n rest
    | none => .lit '[' :: tokensWithin n cs
  | n + 1, c :: cs => .lit c :: tokensWithin n cs

def tokens (pattern : String) : List Token := tokensWithin pattern.toList.length pattern.toList

def accepts : List Token → List Char → Bool
  | [], cs => cs.isEmpty
  | .star :: ts, cs => cs.tails.any fun rest => accepts ts rest
  | _ :: _, [] => false
  | t :: ts, c :: cs => t.admits c && accepts ts cs

/-- `fnmatch` of one path component. -/
def fnmatch (name pattern : String) : Bool := accepts (tokens pattern) name.toList

/-- Tokens that accept one text only. -/
def literals (text : String) : List Token := text.toList.map .lit

theorem accepts_literals_append (cs : List Char) (ts : List Token) (name : List Char) :
    accepts (cs.map .lit ++ ts) name ↔ ∃ rest, name = cs ++ rest ∧ accepts ts rest := by
  induction cs generalizing name with
  | nil => simp
  | cons c cs ih =>
    cases name with
    | nil => simp [accepts]
    | cons d ds =>
      simp only [List.map_cons, List.cons_append, accepts, Token.admits, Bool.and_eq_true,
        beq_iff_eq, ih, List.cons.injEq]
      constructor
      · rintro ⟨rfl, rest, rfl, h⟩
        exact ⟨rest, ⟨rfl, rfl⟩, h⟩
      · rintro ⟨rest, ⟨rfl, rfl⟩, h⟩
        exact ⟨rfl, rest, rfl, h⟩

theorem accepts_literals (text : String) (name : List Char) :
    accepts (literals text) name ↔ name = text.toList := by
  have h := accepts_literals_append text.toList [] name
  rw [List.append_nil] at h
  rw [literals, h]
  constructor
  · rintro ⟨rest, rfl, hrest⟩
    simp [accepts] at hrest
    simp [hrest]
  · rintro rfl
    exact ⟨[], by simp, rfl⟩

theorem accepts_star (ts : List Token) (name : List Char) :
    accepts (.star :: ts) name ↔ ∃ skipped rest, name = skipped ++ rest ∧ accepts ts rest := by
  simp only [accepts, List.any_eq_true, List.mem_tails]
  constructor
  · rintro ⟨rest, ⟨skipped, rfl⟩, h⟩
    exact ⟨skipped, rest, rfl, h⟩
  · rintro ⟨skipped, rest, rfl, h⟩
    exact ⟨rest, List.suffix_append _ _, h⟩

/-- `text*rest` accepts the names that begin with `text` and end as `rest` says. -/
theorem accepts_literals_star (text : String) (ts : List Token) (name : List Char) :
    accepts (literals text ++ .star :: ts) name ↔
      ∃ skipped rest, name = text.toList ++ skipped ++ rest ∧ accepts ts rest := by
  rw [literals, accepts_literals_append]
  constructor
  · rintro ⟨_, rfl, h⟩
    obtain ⟨skipped, rest, rfl, hrest⟩ := (accepts_star _ _).mp h
    exact ⟨skipped, rest, by simp, hrest⟩
  · rintro ⟨skipped, rest, rfl, h⟩
    exact ⟨skipped ++ rest, by simp, (accepts_star _ _).mpr ⟨skipped, rest, rfl, h⟩⟩

/-- `text*last` accepts the names that begin with `text` and end with `last`, the two not
overlapping. -/
theorem accepts_between (text last : String) (name : List Char) :
    accepts (literals text ++ .star :: literals last) name ↔
      ∃ middle, name = text.toList ++ middle ++ last.toList := by
  rw [accepts_literals_star]
  constructor
  · rintro ⟨middle, rest, rfl, h⟩
    exact ⟨middle, by rw [(accepts_literals _ _).mp h]⟩
  · rintro ⟨middle, rfl⟩
    exact ⟨middle, _, rfl, (accepts_literals _ _).mpr rfl⟩

example : fnmatch "packages_list_px01_x.txt" "packages_[a-l]*.tx?" = true := by decide

end SrvBackup.Text.Glob
