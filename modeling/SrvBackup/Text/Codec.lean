import Mathlib.Data.List.TakeWhile

/-!
# Encodings

A `Codec` encodes character by character, without a state, writes ASCII as itself, and reads back
what it writes. It may read other bytes as well: a character can have several byte sequences, of
which the encoder writes one. What neither side can do is left to an error handler.
-/
namespace SrvBackup.Text

abbrev Bytes := List UInt8

/-- A character of a text; a surrogate is one that stands alone. -/
inductive CodePoint where
  | scalar (c : Char)
  | surrogate (n : Fin 0x800)
  deriving DecidableEq, Repr

def CodePoint.value : CodePoint → Nat
  | scalar c => c.toNat
  | surrogate n => 0xD800 + n

/-- What a decoder finds at a byte: a character that takes `more` further bytes, or a byte that,
with `more` further ones, stands for nothing. -/
inductive Found where
  | char (c : Char) (more : Nat)
  | invalid (more : Nat)
  deriving DecidableEq, Repr

structure Codec where
  encodeChar : Char → Option Bytes
  decodeStep : UInt8 → Bytes → Found
  encodeChar_ne_nil : ∀ c, encodeChar c ≠ some []
  encodeChar_ascii : ∀ c : Char, c.toNat < 0x80 → encodeChar c = some [c.toNat.toUInt8]
  decodeStep_encodeChar : ∀ {c b bs} (rest : Bytes), encodeChar c = some (b :: bs) →
    decodeStep b (bs ++ rest) = .char c bs.length

theorem toNat_ofNat_toNat (b : UInt8) : (Char.ofNat b.toNat).toNat = b.toNat := by
  have hlt := b.toNat_lt
  have hvalid : b.toNat.isValidChar := .inl (by omega)
  rw [Char.ofNat, dif_pos hvalid]
  rfl

theorem toNat_toUInt8 {c : Char} (hc : c.toNat < 0x80) : c.toNat.toUInt8.toNat = c.toNat := by
  rw [Nat.toUInt8_eq, UInt8.toNat_ofNat']
  exact Nat.mod_eq_of_lt (by omega)

/-! ## Error handlers -/

inductive UnicodeError where
  | encodeError
  | decodeError
  deriving DecidableEq, Repr

inductive Errors where
  | strict
  | ignore
  | replace
  | backslashreplace
  | surrogateescape
  deriving DecidableEq, Repr

/-- What a handler puts in the place of a character. -/
inductive Replacement where
  | text (cs : List Char)
  | bytes (bs : Bytes)
  deriving DecidableEq, Repr

/-- `n` in hexadecimal, with `width` digits. -/
def hexDigits : Nat → Nat → List Char
  | 0, _ => []
  | width + 1, n => hexDigits width (n / 16) ++ [Nat.digitChar (n % 16)]

def backslashEscape (n : Nat) : List Char :=
  if n < 0x100 then '\\' :: 'x' :: hexDigits 2 n
  else if n < 0x10000 then '\\' :: 'u' :: hexDigits 4 n
  else '\\' :: 'U' :: hexDigits 8 n

/-- The surrogate that stands for a byte of 0x80 or more. -/
def surrogateOf (b : UInt8) : CodePoint :=
  .surrogate ⟨0x400 + b.toNat, by have := b.toNat_lt; omega⟩

/-- What takes the place of a character that cannot be encoded; `none` is an exception. -/
def Errors.onEncode : Errors → CodePoint → Option Replacement
  | strict, _ => none
  | ignore, _ => some (.text [])
  | replace, _ => some (.text ['?'])
  | backslashreplace, p => some (.text (backslashEscape p.value))
  | surrogateescape, .surrogate n =>
    if 0x480 ≤ n.val ∧ n.val < 0x500 then some (.bytes [(n.val - 0x400).toUInt8]) else none
  | surrogateescape, .scalar _ => none

/-- The bytes that are escaped together with one before them; at most four at a time. -/
def escapedWith (bad : Bytes) : Bytes := (bad.take 3).takeWhile (0x80 ≤ ·)

/-- What takes the place of bytes that stand for nothing, and how many of those after the first
are done with. -/
def Errors.onDecode : Errors → UInt8 → Bytes → Option (List CodePoint × Nat)
  | strict, _, _ => none
  | ignore, _, bad => some ([], bad.length)
  | replace, _, bad => some ([.scalar '\uFFFD'], bad.length)
  | backslashreplace, b, bad =>
    some (((b :: bad).flatMap fun b => backslashEscape b.toNat).map .scalar, bad.length)
  | surrogateescape, b, bad =>
    if b < 0x80 then none
    else some ((b :: escapedWith bad).map surrogateOf, (escapedWith bad).length)

/-! ## Encoding and decoding -/

namespace Codec

variable (codec : Codec)

def encode? : CodePoint → Option Bytes
  | .scalar c => codec.encodeChar c
  | .surrogate _ => none

def encodeAll : List Char → Option Bytes
  | [] => some []
  | c :: cs => do
    let front ← codec.encodeChar c
    let rest ← encodeAll cs
    some (front ++ rest)

def encodeReplacement : Replacement → Option Bytes
  | .text cs => codec.encodeAll cs
  | .bytes bs => some bs

/-- The bytes of one character, by the handler if need be. -/
def encodeOne (handler : CodePoint → Option Replacement) (p : CodePoint) : Option Bytes :=
  match codec.encode? p with
  | some bytes => some bytes
  | none => do codec.encodeReplacement (← handler p)

def encodeWith (handler : CodePoint → Option Replacement) :
    List CodePoint → Except UnicodeError Bytes
  | [] => .ok []
  | p :: ps => match codec.encodeOne handler p with
    | none => .error .encodeError
    | some front => (encodeWith handler ps).map (front ++ ·)

def encode (errors : Errors) : List CodePoint → Except UnicodeError Bytes :=
  codec.encodeWith errors.onEncode

/-- Decode with at most as many steps as the fuel allows. -/
def decodeFuel (errors : Errors) : Nat → Bytes → Except UnicodeError (List CodePoint)
  | _, [] => .ok []
  | 0, _ => .ok []
  | fuel + 1, b :: bs => match codec.decodeStep b bs with
    | .char c more => (decodeFuel errors fuel (bs.drop more)).map (.scalar c :: ·)
    | .invalid more => match errors.onDecode b (bs.take more) with
      | none => .error .decodeError
      | some (ps, done) => (decodeFuel errors fuel (bs.drop done)).map (ps ++ ·)

/-- Every step takes a byte, so there is enough fuel. -/
def decode (errors : Errors) (bs : Bytes) : Except UnicodeError (List CodePoint) :=
  codec.decodeFuel errors bs.length bs

/-- The decoder, going through the bytes, reads every character from the very bytes that the
encoder writes for it, and passes over what stands for nothing as it is escaped. -/
inductive ReadsOwn : Bytes → Prop
  | nil : ReadsOwn []
  | char {b bs c more} : codec.decodeStep b bs = .char c more →
      codec.encodeChar c = some (b :: bs.take more) → ReadsOwn (bs.drop more) → ReadsOwn (b :: bs)
  | invalid {b bs more} : codec.decodeStep b bs = .invalid more →
      ReadsOwn (bs.drop (escapedWith (bs.take more)).length) → ReadsOwn (b :: bs)

/-- No character has a second byte sequence. -/
def Canonical : Prop :=
  ∀ b bs c more, codec.decodeStep b bs = .char c more →
    codec.encodeChar c = some (b :: bs.take more)

end Codec

/-! ## Replacements -/

theorem hexDigits_ascii (width n : Nat) : ∀ c ∈ hexDigits width n, c.toNat < 0x80 := by
  induction width generalizing n with
  | zero => simp [hexDigits]
  | succ width ih =>
    have hdigit : ∀ d < 16, (Nat.digitChar d).toNat < 0x80 := by decide
    intro c hc
    rcases List.mem_append.mp hc with hc | hc
    · exact ih (n / 16) c hc
    · rw [List.mem_singleton.mp hc]
      exact hdigit _ (Nat.mod_lt n (by omega))

theorem backslashEscape_ascii (n : Nat) : ∀ c ∈ backslashEscape n, c.toNat < 0x80 := by
  have hcons : ∀ (letter : Char) (width : Nat), letter.toNat < 0x80 →
      ∀ c ∈ '\\' :: letter :: hexDigits width n, c.toNat < 0x80 := by
    intro letter width hletter c hc
    rcases List.mem_cons.mp hc with rfl | hc
    · decide
    rcases List.mem_cons.mp hc with rfl | hc
    · exact hletter
    · exact hexDigits_ascii width n c hc
  unfold backslashEscape
  split
  · exact hcons _ _ (by decide)
  split <;> exact hcons _ _ (by decide)

/-- Text that takes the place of a character is ASCII. -/
theorem Errors.onEncode_ascii {errors : Errors} {p : CodePoint} {cs : List Char}
    (h : errors.onEncode p = some (.text cs)) : ∀ c ∈ cs, c.toNat < 0x80 := by
  cases errors with
  | strict => contradiction
  | ignore =>
    obtain rfl : [] = cs := by simpa [onEncode] using h
    simp
  | replace =>
    obtain rfl : ['?'] = cs := by simpa [onEncode] using h
    simp
  | backslashreplace =>
    obtain rfl : backslashEscape p.value = cs := by simpa [onEncode] using h
    exact backslashEscape_ascii p.value
  | surrogateescape => cases p <;> simp [onEncode] at h

/-- Only `surrogateescape` puts bytes in the place of a character. -/
theorem Errors.exists_text_of_onEncode {errors : Errors} (herrors : errors ≠ .surrogateescape)
    {p : CodePoint} {r : Replacement} (h : errors.onEncode p = some r) : ∃ cs, r = .text cs := by
  cases errors <;> simp_all [onEncode] <;> exact ⟨_, h.symm⟩

/-- An escaped byte is written as itself. -/
theorem onEncode_surrogateOf {b : UInt8} (hb : 0x80 ≤ b) :
    Errors.onEncode .surrogateescape (surrogateOf b) = some (.bytes [b]) := by
  have hlow : 0x80 ≤ b.toNat := UInt8.le_iff_toNat_le.mp hb
  have hhigh := b.toNat_lt
  simp only [surrogateOf, Errors.onEncode]
  rw [if_pos (by omega)]
  simp

/-! ## Round trips -/

namespace Codec

variable {codec : Codec}

/-- The first character of encoded text, and where the rest begins. -/
theorem encodeAll_cons {c : Char} {cs : List Char} {bs : Bytes}
    (h : codec.encodeAll (c :: cs) = some bs) :
    ∃ b front rest, codec.encodeChar c = some (b :: front) ∧ codec.encodeAll cs = some rest ∧
      bs = b :: (front ++ rest) := by
  obtain ⟨front, hfront, rest, hrest, rfl⟩ : ∃ front, codec.encodeChar c = some front ∧
      ∃ rest, codec.encodeAll cs = some rest ∧ front ++ rest = bs := by
    simpa [encodeAll, Option.bind_eq_some_iff] using h
  cases front with
  | nil => exact absurd hfront (codec.encodeChar_ne_nil c)
  | cons b front => exact ⟨b, front, rest, hfront, hrest, rfl⟩

theorem encodeAll_append {cs ds : List Char} {bs bs' : Bytes} (hcs : codec.encodeAll cs = some bs)
    (hds : codec.encodeAll ds = some bs') : codec.encodeAll (cs ++ ds) = some (bs ++ bs') := by
  induction cs generalizing bs with
  | nil =>
    obtain rfl : [] = bs := by simpa [encodeAll] using hcs
    exact hds
  | cons c cs ih =>
    obtain ⟨b, front, rest, hfront, hrest, rfl⟩ := encodeAll_cons hcs
    simp [encodeAll, hfront, ih hrest]

theorem exists_encodeAll_of_ascii {cs : List Char} (hcs : ∀ c ∈ cs, c.toNat < 0x80) :
    ∃ bs, codec.encodeAll cs = some bs := by
  induction cs with
  | nil => exact ⟨[], rfl⟩
  | cons c cs ih =>
    obtain ⟨rest, hrest⟩ := ih fun d hd => hcs d (List.mem_cons_of_mem c hd)
    have hc := codec.encodeChar_ascii c (hcs c List.mem_cons_self)
    exact ⟨_, by rw [encodeAll, hc, hrest]; rfl⟩

/-- Text that can be encoded is encoded without the handler. -/
theorem encodeWith_map_scalar (handler : CodePoint → Option Replacement) {cs : List Char}
    {bs : Bytes} (h : codec.encodeAll cs = some bs) :
    codec.encodeWith handler (cs.map .scalar) = .ok bs := by
  induction cs generalizing bs with
  | nil =>
    obtain rfl : [] = bs := by simpa [encodeAll] using h
    rfl
  | cons c cs ih =>
    obtain ⟨b, front, rest, hfront, hrest, rfl⟩ := encodeAll_cons h
    simp [encodeWith, encodeOne, encode?, hfront, ih hrest, Except.map]

/-- What can be encoded without a handler is text without surrogates. -/
theorem exists_of_encode_strict {ps : List CodePoint} {bs : Bytes}
    (h : codec.encode .strict ps = .ok bs) :
    ∃ cs, ps = cs.map .scalar ∧ codec.encodeAll cs = some bs := by
  induction ps generalizing bs with
  | nil =>
    obtain rfl : [] = bs := by simpa [encode, encodeWith] using h
    exact ⟨[], rfl, rfl⟩
  | cons p ps ih =>
    rw [encode, encodeWith, ← encode] at h
    cases p with
    | surrogate n => simp [encodeOne, encode?, Errors.onEncode] at h
    | scalar c =>
      cases hfront : codec.encodeChar c with
      | none => simp [encodeOne, encode?, Errors.onEncode, hfront] at h
      | some front =>
        cases hrest : codec.encode .strict ps with
        | error e => simp [encodeOne, encode?, hfront, hrest, Except.map] at h
        | ok rest =>
          obtain ⟨cs, rfl, hcs⟩ := ih hrest
          obtain rfl : front ++ rest = bs := by
            simpa [encodeOne, encode?, hfront, hrest, Except.map] using h
          exact ⟨c :: cs, rfl, by simp [encodeAll, hfront, hcs]⟩

theorem decodeFuel_of_encodeAll (errors : Errors) {cs : List Char} {bs : Bytes} {fuel : Nat}
    (h : codec.encodeAll cs = some bs) (hfuel : bs.length ≤ fuel) :
    codec.decodeFuel errors fuel bs = .ok (cs.map .scalar) := by
  induction cs generalizing bs fuel with
  | nil =>
    obtain rfl : [] = bs := by simpa [encodeAll] using h
    cases fuel <;> rfl
  | cons c cs ih =>
    obtain ⟨b, front, rest, hfront, hrest, rfl⟩ := encodeAll_cons h
    cases fuel with
    | zero => simp at hfuel
    | succ fuel =>
      have hstep := codec.decodeStep_encodeChar rest hfront
      have hlength : rest.length ≤ fuel := by
        simp only [List.length_cons, List.length_append] at hfuel
        omega
      simp [decodeFuel, hstep, ih hrest hlength, Except.map]

/-- The decoder reads back what the encoder writes, whatever the handlers. -/
theorem decode_of_encodeAll (errors : Errors) {cs : List Char} {bs : Bytes}
    (h : codec.encodeAll cs = some bs) : codec.decode errors bs = .ok (cs.map .scalar) :=
  decodeFuel_of_encodeAll errors h (Nat.le_refl _)

theorem readsOwn_of_encodeAll {cs : List Char} {bs : Bytes} (h : codec.encodeAll cs = some bs) :
    codec.ReadsOwn bs := by
  induction cs generalizing bs with
  | nil =>
    obtain rfl : [] = bs := by simpa [encodeAll] using h
    exact .nil
  | cons c cs ih =>
    obtain ⟨b, front, rest, hfront, hrest, rfl⟩ := encodeAll_cons h
    refine .char (codec.decodeStep_encodeChar rest hfront) ?_ ?_
    · rwa [List.take_left]
    · rw [List.drop_left]
      exact ih hrest

/-! ## Escaped bytes -/

/-- A byte of ASCII is read as its character wherever a character begins. -/
theorem decodeStep_ascii {b : UInt8} (hb : b < 0x80) (bs : Bytes) :
    codec.decodeStep b bs = .char (Char.ofNat b.toNat) 0 := by
  have hlt : b.toNat < 0x80 := UInt8.lt_iff_toNat_lt.mp hb
  have hchar := toNat_ofNat_toNat b
  have hascii := codec.encodeChar_ascii (Char.ofNat b.toNat) (by omega)
  rw [hchar, Nat.toUInt8_eq, UInt8.ofNat_toNat] at hascii
  exact codec.decodeStep_encodeChar bs hascii

theorem not_ascii_of_invalid {b : UInt8} {bs : Bytes} {more : Nat}
    (hstep : codec.decodeStep b bs = .invalid more) : ¬ b < 0x80 := by
  intro hb
  rw [decodeStep_ascii hb] at hstep
  contradiction

theorem escapedWith_append_drop (bs : Bytes) (more : Nat) :
    escapedWith (bs.take more) ++ bs.drop (escapedWith (bs.take more)).length = bs := by
  have hprefix : escapedWith (bs.take more) <+: bs :=
    (List.takeWhile_prefix _).trans ((List.take_prefix 3 _).trans (List.take_prefix more bs))
  exact (List.prefix_iff_eq_append.mp hprefix)

theorem le_of_mem_escapedWith {bad : Bytes} {b : UInt8} (h : b ∈ escapedWith bad) : 0x80 ≤ b := by
  simpa using List.mem_takeWhile_imp h

/-- Escaped bytes are written as they were. -/
theorem encode_map_surrogateOf {front : Bytes} (hfront : ∀ b ∈ front, 0x80 ≤ b)
    (ps : List CodePoint) :
    codec.encode .surrogateescape (front.map surrogateOf ++ ps) =
      (codec.encode .surrogateescape ps).map (front ++ ·) := by
  induction front with
  | nil => cases h : codec.encode .surrogateescape ps <;> simp [h, Except.map]
  | cons b front ih =>
    have hb := onEncode_surrogateOf (hfront b List.mem_cons_self)
    have hone : codec.encodeOne (Errors.onEncode .surrogateescape) (surrogateOf b) = some [b] := by
      simp only [encodeOne, hb]
      rfl
    rw [List.map_cons, List.cons_append, encode, encodeWith, hone, ← encode,
      ih fun d hd => hfront d (List.mem_cons_of_mem b hd)]
    cases codec.encode .surrogateescape ps <;> rfl

theorem map_append_eq_ok_iff {result : Except UnicodeError Bytes} {front bs : Bytes} :
    result.map (front ++ ·) = .ok bs ↔ ∃ rest, result = .ok rest ∧ front ++ rest = bs := by
  cases result <;> simp [Except.map]

theorem encode_scalar_cons {c : Char} {ps : List CodePoint} {bs : Bytes} :
    codec.encode .surrogateescape (.scalar c :: ps) = .ok bs ↔
      ∃ front rest, codec.encodeChar c = some front ∧
        codec.encode .surrogateescape ps = .ok rest ∧ front ++ rest = bs := by
  rw [encode, encodeWith, ← encode]
  cases hc : codec.encodeChar c with
  | none => simp [encodeOne, encode?, hc, Errors.onEncode]
  | some front => simp [encodeOne, encode?, hc, map_append_eq_ok_iff]

/-- Bytes that are decoded and encoded again come out the same exactly if the decoder reads every
character from its own bytes. -/
theorem readsOwn_char_iff {b : UInt8} {bs : Bytes} {c : Char} {more : Nat}
    (hstep : codec.decodeStep b bs = .char c more) :
    codec.ReadsOwn (b :: bs) ↔
      codec.encodeChar c = some (b :: bs.take more) ∧ codec.ReadsOwn (bs.drop more) := by
  constructor
  · rintro (_ | ⟨hstep', hchar, hrest⟩ | ⟨hstep', -⟩)
    · obtain ⟨rfl, rfl⟩ := Found.char.inj (hstep.symm.trans hstep')
      exact ⟨hchar, hrest⟩
    · rw [hstep] at hstep'
      contradiction
  · rintro ⟨hchar, hrest⟩
    exact .char hstep hchar hrest

theorem readsOwn_invalid_iff {b : UInt8} {bs : Bytes} {more : Nat}
    (hstep : codec.decodeStep b bs = .invalid more) :
    codec.ReadsOwn (b :: bs) ↔
      codec.ReadsOwn (bs.drop (escapedWith (bs.take more)).length) := by
  constructor
  · rintro (_ | ⟨hstep', -, -⟩ | ⟨hstep', hrest⟩)
    · rw [hstep] at hstep'
      contradiction
    · obtain rfl := Found.invalid.inj (hstep.symm.trans hstep')
      exact hrest
  · exact .invalid hstep

/-- A character is written as it was read if the encoder has these bytes for it. -/
theorem encode_char_cons_iff {b : UInt8} {bs : Bytes} {c : Char} {more : Nat}
    {ps : List CodePoint} (hstep : codec.decodeStep b bs = .char c more) :
    codec.encode .surrogateescape (.scalar c :: ps) = .ok (b :: bs) ↔
      codec.encodeChar c = some (b :: bs.take more) ∧
        codec.encode .surrogateescape ps = .ok (bs.drop more) := by
  rw [encode_scalar_cons]
  constructor
  · rintro ⟨front, rest, hfront, hrest, hbs⟩
    cases front with
    | nil => exact absurd hfront (codec.encodeChar_ne_nil c)
    | cons d front =>
      -- The bytes of the character are read as the character, so the two readings agree.
      obtain ⟨rfl, hrests⟩ := List.cons.inj hbs
      obtain rfl : front ++ rest = bs := hrests
      have hagain := codec.decodeStep_encodeChar rest hfront
      obtain ⟨-, rfl⟩ := Found.char.inj (hstep.symm.trans hagain)
      rw [List.take_left, List.drop_left]
      exact ⟨hfront, hrest⟩
  · rintro ⟨hchar, hrest⟩
    exact ⟨_, _, hchar, hrest, by simp⟩

/-- Bytes that stand for nothing are written as they were read. -/
theorem encode_escaped_iff {b : UInt8} {bs : Bytes} {more : Nat} {ps : List CodePoint}
    (hstep : codec.decodeStep b bs = .invalid more) :
    codec.encode .surrogateescape ((b :: escapedWith (bs.take more)).map surrogateOf ++ ps) =
        .ok (b :: bs) ↔
      codec.encode .surrogateescape ps = .ok (bs.drop (escapedWith (bs.take more)).length) := by
  have hsplit := escapedWith_append_drop bs more
  have hfront : ∀ d ∈ b :: escapedWith (bs.take more), 0x80 ≤ d := by
    intro d hd
    rcases List.mem_cons.mp hd with rfl | hd
    · exact UInt8.not_lt.mp (not_ascii_of_invalid hstep)
    · exact le_of_mem_escapedWith hd
  rw [encode_map_surrogateOf hfront, map_append_eq_ok_iff]
  constructor
  · rintro ⟨rest, hrest, hbs⟩
    have hrests : escapedWith (bs.take more) ++ rest = bs := (List.cons.inj hbs).2
    obtain rfl := List.append_cancel_left (hrests.trans hsplit.symm)
    exact hrest
  · intro hrest
    exact ⟨_, hrest, by rw [List.cons_append, hsplit]⟩

theorem decodeFuel_surrogateescape {fuel : Nat} {bs : Bytes} (hfuel : bs.length ≤ fuel) :
    ∃ ps, codec.decodeFuel .surrogateescape fuel bs = .ok ps ∧
      (codec.encode .surrogateescape ps = .ok bs ↔ codec.ReadsOwn bs) := by
  induction fuel generalizing bs with
  | zero =>
    obtain rfl : bs = [] := List.length_eq_zero_iff.mp (by omega)
    exact ⟨[], rfl, by simp [encode, encodeWith, ReadsOwn.nil]⟩
  | succ fuel ih =>
    cases bs with
    | nil => exact ⟨[], rfl, by simp [encode, encodeWith, ReadsOwn.nil]⟩
    | cons b bs =>
      have hlength : bs.length ≤ fuel := by simpa using hfuel
      have hdrop : ∀ n, (bs.drop n).length ≤ fuel := fun n => by
        rw [List.length_drop]
        omega
      cases hstep : codec.decodeStep b bs with
      | char c more =>
        obtain ⟨ps, hps, hown⟩ := ih (hdrop more)
        refine ⟨.scalar c :: ps, by simp [decodeFuel, hstep, hps, Except.map], ?_⟩
        rw [encode_char_cons_iff hstep, readsOwn_char_iff hstep, hown]
      | invalid more =>
        obtain ⟨ps, hps, hown⟩ := ih (hdrop (escapedWith (bs.take more)).length)
        refine ⟨(b :: escapedWith (bs.take more)).map surrogateOf ++ ps, ?_, ?_⟩
        · simp [decodeFuel, hstep, Errors.onDecode, not_ascii_of_invalid hstep, hps, Except.map]
        · rw [encode_escaped_iff hstep, readsOwn_invalid_iff hstep, hown]

theorem decode_surrogateescape (bs : Bytes) :
    ∃ ps, codec.decode .surrogateescape bs = .ok ps ∧
      (codec.encode .surrogateescape ps = .ok bs ↔ codec.ReadsOwn bs) :=
  decodeFuel_surrogateescape (Nat.le_refl _)

/-- Where no character has a second byte sequence, all bytes survive. -/
theorem Canonical.readsOwn (h : codec.Canonical) (bs : Bytes) : codec.ReadsOwn bs := by
  induction hn : bs.length using Nat.strongRecOn generalizing bs with
  | ind n ih =>
    cases bs with
    | nil => exact .nil
    | cons b bs =>
      have hdrop : ∀ k, codec.ReadsOwn (bs.drop k) := by
        intro k
        refine ih _ ?_ _ rfl
        rw [List.length_drop, ← hn, List.length_cons]
        omega
      cases hstep : codec.decodeStep b bs with
      | char c more => exact .char hstep (h b bs c more hstep) (hdrop more)
      | invalid more => exact .invalid hstep (hdrop _)

end Codec

end SrvBackup.Text
