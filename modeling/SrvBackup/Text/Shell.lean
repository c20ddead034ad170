import SrvBackup.Text.Lines
import Mathlib.Algebra.GroupWithZero.Nat

/-!
# How a shell reads a command

The words and redirections of one simple command, by the quoting rules of POSIX shells. What a
pattern or a tilde stands for depends on the files of a host; that comes after the words are
there, and is no part of this. A text has no reading here if it is more than one simple command,
if a quotation does not end, or if `$` or a backquote stands for something else.
-/
namespace SrvBackup.Text.Shell

inductive Mode where
  | plain
  | escaped
  | single
  | double
  | doubleEscaped
  | comment
  deriving DecidableEq, Repr

inductive Token where
  | word (cs : List Char)
  /-- `>`, after the digits of a file descriptor -/
  | redirect (descriptor : List Char)
  deriving DecidableEq, Repr

/-- What has been read of the current word. -/
structure Reader where
  mode : Mode := .plain
  word : Option (List Char) := none
  quoted : Bool := false
  deriving DecidableEq, Repr

namespace Reader

def start : Reader := {}

def push (r : Reader) (c : Char) : Reader := { r with word := some (r.word.getD [] ++ [c]) }

def enter (r : Reader) (mode : Mode) : Reader :=
  { mode := mode, word := some (r.word.getD []), quoted := true }

def flush (r : Reader) : List Token := (r.word.map Token.word).toList

/-- `>` takes digits right before it as a file descriptor; otherwise it is stdout. -/
def great (r : Reader) : List Token :=
  match r.word, r.quoted with
  | some ds, false => if ds.all Char.isDigit then [.redirect ds] else [.word ds, .redirect ['1']]
  | _, _ => r.flush ++ [.redirect ['1']]

/-- What one character adds to the tokens, and what is being read after it. -/
def step (r : Reader) (c : Char) : Option (List Token × Reader) :=
  match r.mode with
  | .plain =>
    if c = ' ' ∨ c = '\t' then some (r.flush, start)
    else if c = '\\' then some ([], { r with mode := .escaped })
    else if c = '\'' then some ([], r.enter .single)
    else if c = '"' then some ([], r.enter .double)
    else if c = '>' then some (r.great, start)
    else if c ∈ ['\n', '$', '`', '|', '&', ';', '<', '(', ')'] then none
    else if c = '#' ∧ r.word = none then some ([], { r with mode := .comment })
    else some ([], r.push c)
  | .escaped =>
    -- an escaped line break is no character
    if c = '\n' then some ([], { r with mode := .plain })
    else some ([], { r.push c with mode := .plain, quoted := true })
  | .single =>
    if c = '\'' then some ([], { r with mode := .plain }) else some ([], r.push c)
  | .double =>
    if c = '"' then some ([], { r with mode := .plain })
    else if c = '\\' then some ([], { r with mode := .doubleEscaped })
    else if c = '$' ∨ c = '`' then none
    else some ([], r.push c)
  | .doubleEscaped =>
    if c = '\n' then some ([], { r with mode := .double })
    else if c ∈ ['$', '`', '"', '\\'] then some ([], { r.push c with mode := .double })
    else some ([], { (r.push '\\').push c with mode := .double })
  | .comment => if c = '\n' then none else some ([], r)

/-- The tokens at the end of the text. -/
def finish (r : Reader) : Option (List Token) :=
  match r.mode with
  | .plain | .comment => some r.flush
  | _ => none

def tokens (r : Reader) : List Char → Option (List Token)
  | [] => r.finish
  | c :: cs => (r.step c).bind fun (ts, r') => (r'.tokens cs).map (ts ++ ·)

end Reader

/-- A simple command: its words, and the files that its output goes to. -/
structure Command where
  words : List String
  redirects : List (String × String)
  deriving DecidableEq, Repr

def command? : List Token → Option Command
  | [] => some ⟨[], []⟩
  | .word w :: ts =>
    (command? ts).map fun cmd => { cmd with words := String.ofList w :: cmd.words }
  | .redirect fd :: .word w :: ts =>
    (command? ts).map fun cmd =>
      { cmd with redirects := (String.ofList fd, String.ofList w) :: cmd.redirects }
  | .redirect _ :: _ => none

def read? (text : String) : Option Command := (Reader.start.tokens text.toList).bind command?

example : read? "tar -C 'my dir' a\\ b  # all\n" = none := by decide
example : read? "tar -C 'my dir' a\\ b\"c\" 2>/dev/null # all" =
    some ⟨["tar", "-C", "my dir", "a bc"], [("2", "/dev/null")]⟩ := by decide
example : read? "a>b; c" = none := by decide

/-! ## Bare words -/

def isOrdinary (c : Char) : Bool :=
  c ∉ [' ', '\t', '\n', '\\', '\'', '"', '>', '$', '`', '|', '&', ';', '<', '(', ')']

/-- A text that a shell reads as itself. -/
structure Bare (w : List Char) : Prop where
  ne_nil : w ≠ []
  ordinary : ∀ c ∈ w, isOrdinary c
  noComment : w.head? ≠ some '#'

instance (w : List Char) : Decidable (Bare w) :=
  decidable_of_iff (w ≠ [] ∧ (∀ c ∈ w, isOrdinary c) ∧ w.head? ≠ some '#')
    ⟨fun ⟨h₁, h₂, h₃⟩ => ⟨h₁, h₂, h₃⟩, fun h => ⟨h.1, h.2, h.3⟩⟩

def IsQuote (c : Char) : Prop := c = '\\' ∨ c = '\'' ∨ c = '"'

instance (c : Char) : Decidable (IsQuote c) := by unfold IsQuote; infer_instance

namespace Reader

theorem step_ordinary {r : Reader} {c : Char} (hmode : r.mode = .plain) (hc : isOrdinary c)
    (hcomment : c = '#' → r.word ≠ none) : r.step c = some ([], r.push c) := by
  have hc' :
      c ∉ [' ', '\t', '\n', '\\', '\'', '"', '>', '$', '`', '|', '&', ';', '<', '(', ')'] := by
    simpa [isOrdinary] using hc
  simp only [List.mem_cons, List.not_mem_nil, or_false, not_or] at hc'
  have hsharp : ¬ (c = '#' ∧ r.word = none) := fun h => hcomment h.1 h.2
  simp [step, hmode, hc', hsharp]

theorem tokens_of_step {r r' : Reader} {c : Char} {ts : List Token}
    (h : r.step c = some (ts, r')) (cs : List Char) :
    r.tokens (c :: cs) = (r'.tokens cs).map (ts ++ ·) := by
  rw [tokens, h, Option.bind_some]

theorem tokens_of_step_nil {r r' : Reader} {c : Char} (h : r.step c = some ([], r'))
    (cs : List Char) : r.tokens (c :: cs) = r'.tokens cs := by
  simp [tokens_of_step h]

theorem tokens_ordinary {w : List Char} (hw : ∀ c ∈ w, isOrdinary c) (v rest : List Char) :
    { start with word := some v }.tokens (w ++ rest) =
      { start with word := some (v ++ w) }.tokens rest := by
  induction w generalizing v with
  | nil => simp
  | cons c w ih =>
    have hstep : { start with word := some v }.step c =
        some ([], { start with word := some (v ++ [c]) }) :=
      step_ordinary rfl (hw c (by simp)) (by simp)
    rw [List.cons_append, tokens_of_step_nil hstep, ih fun d hd => hw d (by simp [hd])]
    simp

/-- A bare word is read as itself. -/
theorem tokens_bare {w : List Char} (hw : Bare w) (rest : List Char) :
    start.tokens (w ++ rest) = { start with word := some w }.tokens rest := by
  cases w with
  | nil => exact absurd rfl hw.ne_nil
  | cons c w =>
    have hc : c ≠ '#' := fun h => hw.noComment (congrArg some h)
    have hstep : start.step c = some ([], { start with word := some [c] }) :=
      step_ordinary rfl (hw.ordinary c (by simp)) fun h => absurd h hc
    rw [List.cons_append, tokens_of_step_nil hstep,
      tokens_ordinary (fun d hd => hw.ordinary d (by simp [hd]))]
    rfl

theorem tokens_blank (rest : List Char) : start.tokens (' ' :: rest) = start.tokens rest := by
  simp [tokens, step, start, flush]

theorem tokens_bare_blank {w : List Char} (hw : Bare w) (rest : List Char) :
    start.tokens (w ++ ' ' :: rest) = (start.tokens rest).map (.word w :: ·) := by
  rw [tokens_bare hw]
  simp [tokens, step, start, flush, Option.map_eq_bind]

/-- Bare words with a blank between them, and one after the last. -/
theorem tokens_intercalate {ws : List (List Char)} (hws : ∀ w ∈ ws, Bare w) (rest : List Char) :
    start.tokens ([' '].intercalate ws ++ ' ' :: rest) =
      (start.tokens rest).map (ws.map Token.word ++ ·) := by
  induction ws with
  | nil => simp [tokens_blank]
  | cons w ws ih =>
    have hw := hws w (by simp)
    have hrest := ih fun v hv => hws v (by simp [hv])
    cases ws with
    | nil => simpa using tokens_bare_blank hw rest
    | cons v ws =>
      rw [List.intercalate_cons_cons, List.append_assoc, List.append_assoc, List.singleton_append,
        tokens_bare_blank hw, hrest]
      simp [Function.comp_def]

end Reader

/-! ## Quotes are lost -/

def Token.letters (q : Char) : Token → Nat
  | .word cs => cs.count q
  | .redirect ds => ds.count q

/-- How often the tokens have the character. -/
def letters (q : Char) (ts : List Token) : Nat := (ts.map (Token.letters q)).sum

@[simp] theorem letters_nil (q : Char) : letters q [] = 0 := rfl

@[simp] theorem letters_append (q : Char) (ts us : List Token) :
    letters q (ts ++ us) = letters q ts + letters q us := by simp [letters]

theorem Bare.concat {w : List Char} (hw : Bare w) {c : Char} (hc : isOrdinary c) :
    Bare (w ++ [c]) where
  ne_nil := by simp
  ordinary d hd := by
    rcases List.mem_append.mp hd with hd | hd
    · exact hw.ordinary d hd
    · rwa [List.mem_singleton.mp hd]
  noComment := by
    obtain ⟨d, v, rfl⟩ := List.exists_cons_of_ne_nil hw.ne_nil
    simpa using hw.noComment

theorem bare_singleton {c : Char} (hc : isOrdinary c) (hcomment : c ≠ '#') : Bare [c] where
  ne_nil := by simp
  ordinary := by simpa using hc
  noComment := by simpa using hcomment

namespace Reader

/-- How often the character is in what has been read and is not in the tokens yet. -/
def held (r : Reader) (q : Char) : Nat :=
  (r.word.getD []).count q + if r.mode = .doubleEscaped then ['\\'].count q else 0

theorem letters_flush (r : Reader) (q : Char) : letters q r.flush = (r.word.getD []).count q := by
  cases h : r.word <;> simp [flush, letters, Token.letters, h]

theorem letters_great {q : Char} (hq : IsQuote q) (r : Reader) :
    letters q r.great = (r.word.getD []).count q := by
  have hone : ['1'].count q = 0 := by rcases hq with rfl | rfl | rfl <;> decide
  unfold great
  split
  · next ds hword _ => split <;> simp [letters, Token.letters, hword, hone]
  · simp only [letters_append, letters_flush]
    simp [letters, Token.letters, hone]

/-- A step invents no quote. -/
theorem letters_step {r r' : Reader} {c q : Char} {ts : List Token} (hq : IsQuote q)
    (h : r.step c = some (ts, r')) : letters q ts + r'.held q ≤ r.held q + [c].count q := by
  obtain ⟨mode, word, quoted⟩ := r
  cases mode with
  | plain =>
    simp only [step] at h
    split_ifs at h <;> cases h <;>
      simp [letters_flush, letters_great hq, held, start, enter, push, List.count_append]
  | escaped =>
    simp only [step] at h
    split_ifs at h <;> cases h <;> simp [held, push, List.count_append]
  | single =>
    simp only [step] at h
    split_ifs at h <;> cases h <;> simp [held, push, List.count_append]
  | double =>
    simp only [step] at h
    split_ifs at h with h₁ h₂
    · cases h
      simp [held]
    · cases h
      simp [held, h₂]
    · cases h
      simp [held, push, List.count_append]
  | doubleEscaped =>
    simp only [step] at h
    split_ifs at h <;> cases h <;> simp [held, push, List.count_append, List.count_cons] <;> omega
  | comment =>
    simp only [step] at h
    split_ifs at h
    cases h
    simp

theorem letters_tokens {r : Reader} {cs : List Char} {q : Char} {ts : List Token} (hq : IsQuote q)
    (h : r.tokens cs = some ts) : letters q ts ≤ r.held q + cs.count q := by
  induction cs generalizing r ts with
  | nil =>
    have hflush : ts = r.flush := by
      unfold tokens finish at h
      split at h <;> simp_all
    rw [hflush, letters_flush]
    simp [held]
  | cons c cs ih =>
    simp only [tokens, Option.bind_eq_some_iff, Option.map_eq_some_iff, Prod.exists] at h
    obtain ⟨us, r', hstep, vs, hrest, rfl⟩ := h
    have hc := letters_step hq hstep
    have hcs := ih hrest
    rw [letters_append, List.count_cons]
    rw [List.count_singleton] at hc
    omega

/-- The reader is outside quotations, and has met none in the current word. -/
structure Unquoted (r : Reader) : Prop where
  mode : r.mode = .plain ∨ r.mode = .comment
  word : ∀ w ∈ r.word, Bare w
  quoted : r.quoted = false
  comment : r.mode = .comment → r.word = none

theorem unquoted_start : start.Unquoted := ⟨.inl rfl, by simp [start], rfl, fun h => by cases h⟩

theorem Unquoted.push {r : Reader} (hr : r.Unquoted) (hmode : r.mode = .plain) {c : Char}
    (hc : isOrdinary c) (hcomment : ¬ (c = '#' ∧ r.word = none)) : (r.push c).Unquoted where
  mode := .inl hmode
  word w hw := by
    obtain rfl : r.word.getD [] ++ [c] = w := by simpa [Reader.push] using hw
    cases hword : r.word with
    | none => exact bare_singleton hc fun h => hcomment ⟨h, hword⟩
    | some v => exact (hr.word v (by simp [hword])).concat hc
  quoted := hr.quoted
  comment h := by
    rw [show (r.push c).mode = r.mode from rfl, hmode] at h
    cases h

theorem Unquoted.bare_flush {r : Reader} (hr : r.Unquoted) :
    ∀ w, .word w ∈ r.flush → Bare w := by
  intro w hw
  refine hr.word w ?_
  simpa [flush] using hw

theorem Unquoted.bare_great {r : Reader} (hr : r.Unquoted) :
    ∀ w, .word w ∈ r.great → Bare w := by
  intro w hw
  refine hr.word w ?_
  unfold great at hw
  split at hw
  · next ds hword _ =>
    split at hw
    · simp at hw
    · simpa [hword, eq_comm] using hw
  · simpa [flush] using hw

/-- Without quotes, words stay bare. -/
theorem Unquoted.step {r r' : Reader} (hr : r.Unquoted) {c : Char} (hc : ¬ IsQuote c)
    {ts : List Token} (h : r.step c = some (ts, r')) :
    r'.Unquoted ∧ ∀ w, .word w ∈ ts → Bare w := by
  simp only [IsQuote, not_or] at hc
  rcases hr.mode with hmode | hmode
  · simp only [Reader.step, hmode, hc.1, hc.2.1, hc.2.2, if_false] at h
    split_ifs at h with hblank hgreat hother hcomment
    · cases h
      exact ⟨unquoted_start, hr.bare_flush⟩
    · cases h
      exact ⟨unquoted_start, hr.bare_great⟩
    · cases h
      exact ⟨⟨.inr rfl, hr.word, hr.quoted, fun _ => hcomment.2⟩, by simp⟩
    · cases h
      have hordinary : isOrdinary c := by
        simp only [isOrdinary, List.mem_cons, List.not_mem_nil, or_false, not_or] at hother ⊢
        simp [hc, hgreat, hother]
        tauto
      exact ⟨hr.push hmode hordinary hcomment, by simp⟩
  · simp only [Reader.step, hmode] at h
    split_ifs at h
    cases h
    exact ⟨hr, by simp⟩

/-- The words of a text without quotes are bare. -/
theorem Unquoted.tokens {r : Reader} (hr : r.Unquoted) {cs : List Char}
    (hcs : ∀ c ∈ cs, ¬ IsQuote c) {ts : List Token} (h : r.tokens cs = some ts) :
    ∀ w, .word w ∈ ts → Bare w := by
  induction cs generalizing r ts with
  | nil =>
    have hflush : ts = r.flush := by
      unfold Reader.tokens finish at h
      split at h <;> simp_all
    exact hflush ▸ hr.bare_flush
  | cons c cs ih =>
    simp only [Reader.tokens, Option.bind_eq_some_iff, Option.map_eq_some_iff, Prod.exists] at h
    obtain ⟨us, r', hstep, vs, hrest, rfl⟩ := h
    obtain ⟨hr', hus⟩ := hr.step (hcs c (by simp)) hstep
    intro w hw
    rcases List.mem_append.mp hw with hw | hw
    · exact hus w hw
    · exact ih hr' (fun d hd => hcs d (by simp [hd])) hrest w hw

theorem Unquoted.held_eq_zero {r : Reader} (hr : r.Unquoted) {q : Char} (hq : IsQuote q) :
    r.held q = 0 := by
  have hmode : r.mode ≠ .doubleEscaped := by
    rcases hr.mode with h | h <;> rw [h] <;> simp
  have hordinary : ¬ isOrdinary q := by rcases hq with rfl | rfl | rfl <;> decide
  have hword : (r.word.getD []).count q = 0 := by
    refine List.count_eq_zero.mpr fun hmem => ?_
    cases hword : r.word with
    | none => simp [hword] at hmem
    | some w => exact hordinary ((hr.word w hword).ordinary q (by simpa [hword] using hmem))
  simp [held, hword, hmode]

/-- The first quote is lost. -/
theorem letters_step_quote {r r' : Reader} (hr : r.Unquoted) {q : Char} (hq : IsQuote q)
    {ts : List Token} (h : r.step q = some (ts, r')) : letters q ts + r'.held q = 0 := by
  have hheld := hr.held_eq_zero hq
  rcases hr.mode with hmode | hmode
  · rcases hq with rfl | rfl | rfl <;>
      simp only [Reader.step, hmode] at h <;> cases h <;> simpa [held, enter, hmode] using hheld
  · simp only [Reader.step, hmode] at h
    split_ifs at h
    cases h
    simpa using hheld

/-- If a text has quotes, the tokens have fewer of some kind. -/
theorem Unquoted.exists_lost {r : Reader} (hr : r.Unquoted) {cs : List Char}
    (hquote : ∃ c ∈ cs, IsQuote c) {ts : List Token} (h : r.tokens cs = some ts) :
    ∃ q, IsQuote q ∧ letters q ts < cs.count q := by
  induction cs generalizing r ts with
  | nil => simp at hquote
  | cons c cs ih =>
    simp only [Reader.tokens, Option.bind_eq_some_iff, Option.map_eq_some_iff, Prod.exists] at h
    obtain ⟨us, r', hstep, vs, hrest, rfl⟩ := h
    by_cases hc : IsQuote c
    · refine ⟨c, hc, ?_⟩
      have hlost := letters_step_quote hr hc hstep
      have hcs := letters_tokens hc hrest
      rw [letters_append, List.count_cons_self]
      omega
    · obtain ⟨d, hd, hquote⟩ := hquote
      have hcs : ∃ c ∈ cs, IsQuote c := by
        rcases List.mem_cons.mp hd with rfl | hd
        · exact absurd hquote hc
        · exact ⟨d, hd, hquote⟩
      obtain ⟨q, hq, hlost⟩ := ih (hr.step hc hstep).1 hcs hrest
      refine ⟨q, hq, ?_⟩
      have hus := letters_step hq hstep
      have hne : c ≠ q := fun h => hc (h ▸ hq)
      rw [hr.held_eq_zero hq, List.count_singleton] at hus
      simp only [beq_iff_eq, hne, if_false] at hus
      rw [letters_append, List.count_cons_of_ne hne]
      omega

end Reader

/-! ## Commands -/

/-- How often the words and the redirections have the character. -/
def Command.letters (q : Char) (cmd : Command) : Nat :=
  (cmd.words.map (·.toList.count q)).sum +
    (cmd.redirects.map fun r => r.1.toList.count q + r.2.toList.count q).sum

theorem letters_command {q : Char} {ts : List Token} {cmd : Command} (h : command? ts = some cmd) :
    cmd.letters q = letters q ts := by
  fun_induction command? ts generalizing cmd with
  | case1 =>
    cases h
    rfl
  | case2 w ts ih =>
    obtain ⟨cmd', hcmd, rfl⟩ := Option.map_eq_some_iff.mp h
    have hrest := ih hcmd
    simp only [Command.letters, Shell.letters, List.map_cons, List.sum_cons, String.toList_ofList,
      Token.letters] at hrest ⊢
    omega
  | case3 fd w ts ih =>
    obtain ⟨cmd', hcmd, rfl⟩ := Option.map_eq_some_iff.mp h
    have hrest := ih hcmd
    simp only [Command.letters, Shell.letters, List.map_cons, List.sum_cons, String.toList_ofList,
      Token.letters] at hrest ⊢
    omega
  | case4 => cases h

theorem mem_of_command {ts : List Token} {cmd : Command} (h : command? ts = some cmd)
    {w : String} (hw : w ∈ cmd.words) : .word w.toList ∈ ts := by
  fun_induction command? ts generalizing cmd with
  | case1 =>
    cases h
    cases hw
  | case2 v ts ih =>
    obtain ⟨cmd', hcmd, rfl⟩ := Option.map_eq_some_iff.mp h
    rcases List.mem_cons.mp hw with rfl | hw
    · simp
    · exact List.mem_cons_of_mem _ (ih hcmd hw)
  | case3 fd v ts ih =>
    obtain ⟨cmd', hcmd, rfl⟩ := Option.map_eq_some_iff.mp h
    exact List.mem_cons_of_mem _ (List.mem_cons_of_mem _ (ih hcmd hw))
  | case4 => cases h

theorem command?_words (ws : List String) (ts : List Token) :
    command? ((ws.map String.toList).map Token.word ++ ts) =
      (command? ts).map fun cmd => { cmd with words := ws ++ cmd.words } := by
  induction ws with
  | nil => simp
  | cons w ws ih =>
    simp only [List.map_cons, List.cons_append, command?, ih, Option.map_map]
    simp [Function.comp_def]

/-- A command that has every quote of its text has bare words only. -/
theorem bare_of_read? {text : String} {cmd : Command} (h : read? text = some cmd)
    (hquotes : ∀ q, IsQuote q → text.toList.count q ≤ cmd.letters q) :
    ∀ w ∈ cmd.words, Bare w.toList := by
  obtain ⟨ts, hts, hcmd⟩ := Option.bind_eq_some_iff.mp h
  have hnone : ∀ c ∈ text.toList, ¬ IsQuote c := by
    intro c hc hquote
    obtain ⟨q, hq, hlost⟩ := Reader.unquoted_start.exists_lost ⟨c, hc, hquote⟩ hts
    have hletters := hquotes q hq
    rw [letters_command hcmd] at hletters
    omega
  exact fun w hw => Reader.unquoted_start.tokens hnone hts _ (mem_of_command hcmd hw)

/-- Pieces between blanks are words, where they are not empty. -/
theorem Reader.tokens_pieces {pieces : List (List Char)}
    (hpieces : ∀ piece ∈ pieces, piece ≠ [] → Bare piece) :
    start.tokens ([' '].intercalate pieces) =
      some ((pieces.filter (· ≠ [])).map Token.word) := by
  induction pieces with
  | nil => rfl
  | cons piece pieces ih =>
    have hrest := ih fun p hp => hpieces p (by simp [hp])
    have hpiece := hpieces piece (by simp)
    by_cases hempty : piece = []
    · subst hempty
      cases pieces with
      | nil => rfl
      | cons second pieces =>
        rw [List.intercalate_cons_cons, List.nil_append, List.singleton_append, tokens_blank, hrest]
        simp
    · cases pieces with
      | nil =>
        have hend := tokens_bare (hpiece hempty) []
        rw [List.append_nil] at hend
        rw [List.intercalate_singleton, hend]
        simp [hempty, tokens, finish, flush, start]
      | cons second pieces =>
        rw [List.intercalate_cons_cons, List.append_assoc, List.singleton_append,
          tokens_bare_blank (hpiece hempty), hrest]
        simp [hempty]

/-- The words between the blanks of a text. -/
def blankWords (text : String) : List String :=
  ((text.toList.splitOn ' ').filter (· ≠ [])).map String.ofList

/-- A text where only blanks mean something is split at them. -/
theorem read?_eq_blankWords {text : String}
    (htext : ∀ c ∈ text.toList, c = ' ' ∨ (isOrdinary c ∧ c ≠ '#')) :
    read? text = some ⟨blankWords text, []⟩ := by
  have hbare : ∀ piece ∈ text.toList.splitOn ' ', piece ≠ [] → Bare piece := by
    intro piece hpiece hne
    have hin := infix_of_mem_splitOn hpiece
    have hchars : ∀ c ∈ piece, isOrdinary c ∧ c ≠ '#' := by
      intro c hc
      refine (htext c (hin.mem hc)).resolve_left ?_
      rintro rfl
      exact notMem_of_mem_splitOn hpiece hc
    refine ⟨hne, fun c hc => (hchars c hc).1, fun hhead => ?_⟩
    exact (hchars '#' (List.mem_of_head? hhead)).2 rfl
  have htokens := Reader.tokens_pieces hbare
  rw [List.intercalate_splitOn] at htokens
  have hwords := command?_words (blankWords text) []
  simp only [blankWords, List.map_map, List.append_nil] at hwords
  rw [read?, htokens]
  simpa [Function.comp_def, command?, blankWords] using hwords

end SrvBackup.Text.Shell
