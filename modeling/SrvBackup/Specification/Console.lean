import SrvBackup.Adapters.SafeConsole
import SrvBackup.Text.Encodings

/-!
# What a stream gets of a text

Every text is written, character by character, unless the stream escapes surrogates and its decoder
takes bytes for a character that the encoder writes otherwise.
-/
namespace SrvBackup.Specification

open SrvBackup.Text SrvBackup.Adapters

/-- The bytes that stand for ASCII text. -/
def asciiBytes (codec : Codec) (cs : List Char) : Bytes := (codec.encodeAll cs).getD []

/-- The bytes of one character: its own, else those of its ASCII form, else what the handler of the
stream writes for it, else `?`. -/
def charBytes (codec : Codec) (errors : Errors) (p : CodePoint) : Bytes :=
  match codec.encode? p, asciiForm p, errors.onEncode p with
  | some bytes, _, _ => bytes
  | none, some form, _ => asciiBytes codec form
  | none, none, some (.text cs) => asciiBytes codec cs
  | none, none, some (.bytes bytes) => bytes
  | none, none, none => asciiBytes codec ['?']

def textBytes (codec : Codec) (errors : Errors) (text : List CodePoint) : Bytes :=
  text.flatMap (charBytes codec errors)

section Encoding

variable {codec : Codec} {errors : Errors}

theorem encodeAll_asciiBytes {cs : List Char} (hcs : ∀ c ∈ cs, c.toNat < 0x80) :
    codec.encodeAll cs = some (asciiBytes codec cs) := by
  obtain ⟨bs, hbs⟩ : ∃ bs, codec.encodeAll cs = some bs := Codec.exists_encodeAll_of_ascii hcs
  rw [asciiBytes, hbs, Option.getD_some]

theorem encodeAll_questionMark :
    codec.encodeAll ['?'] = some (asciiBytes codec ['?']) :=
  encodeAll_asciiBytes (by simp)

/-- The fallback handler never raises, and writes the bytes of each character. -/
theorem encodeOne_replacingUnencodable (p : CodePoint) :
    codec.encodeOne (replacingUnencodable errors) p = some (charBytes codec errors p) := by
  unfold Codec.encodeOne charBytes
  cases codec.encode? p with
  | some bytes => rfl
  | none =>
    cases hform : asciiForm p with
    | some form =>
      rw [replacingUnencodable_of_form hform]
      exact encodeAll_asciiBytes (asciiForm_ascii hform)
    | none =>
      rw [replacingUnencodable_of_none hform]
      cases hown : errors.onEncode p with
      | none => exact encodeAll_questionMark
      | some replacement =>
        cases replacement with
        | text cs => exact encodeAll_asciiBytes (Errors.onEncode_ascii hown)
        | bytes bytes => rfl

theorem encodeWith_replacingUnencodable (text : List CodePoint) :
    codec.encodeWith (replacingUnencodable errors) text = .ok (textBytes codec errors text) := by
  induction text with
  | nil => rfl
  | cons p text ih =>
    rw [Codec.encodeWith, encodeOne_replacingUnencodable, ih]
    rfl

/-- Without escaped surrogates the bytes of a character are those of a text. -/
theorem exists_encodeAll_charBytes (herrors : errors ≠ .surrogateescape) (p : CodePoint) :
    ∃ cs, codec.encodeAll cs = some (charBytes codec errors p) := by
  unfold charBytes
  cases hown : codec.encode? p with
  | some bytes =>
    cases p with
    | surrogate n => contradiction
    | scalar c =>
      have hc : codec.encodeChar c = some bytes := hown
      exact ⟨[c], by simp [Codec.encodeAll, hc]⟩
  | none =>
    cases hform : asciiForm p with
    | some form => exact ⟨form, encodeAll_asciiBytes (asciiForm_ascii hform)⟩
    | none =>
      cases hr : errors.onEncode p with
      | none => exact ⟨_, encodeAll_questionMark⟩
      | some replacement =>
        obtain ⟨cs, rfl⟩ := Errors.exists_text_of_onEncode herrors hr
        exact ⟨cs, encodeAll_asciiBytes (Errors.onEncode_ascii hr)⟩

theorem exists_encodeAll_textBytes (herrors : errors ≠ .surrogateescape)
    (text : List CodePoint) : ∃ cs, codec.encodeAll cs = some (textBytes codec errors text) := by
  induction text with
  | nil => exact ⟨[], rfl⟩
  | cons p text ih =>
    obtain ⟨cs, hcs⟩ := @exists_encodeAll_charBytes codec errors herrors p
    obtain ⟨ds, hds⟩ := ih
    exact ⟨cs ++ ds, Codec.encodeAll_append hcs hds⟩

/-- A text that the encoding takes has the bytes of its characters. -/
theorem textBytes_map_scalar {cs : List Char} {bs : Bytes} (h : codec.encodeAll cs = some bs) :
    textBytes codec errors (cs.map .scalar) = bs := by
  have hencode := Codec.encodeWith_map_scalar (replacingUnencodable errors) h
  rw [encodeWith_replacingUnencodable] at hencode
  exact Except.ok.inj hencode

/-- A text that the encoding does not take is written as the bytes of its characters are read. -/
theorem safeWrite_of_fallback {text ps : List CodePoint} {e : UnicodeError}
    (hstrict : codec.encode .strict text = .error e)
    (hdecode : codec.decode errors (textBytes codec errors text) = .ok ps) :
    safeWrite codec errors text = codec.encode errors ps := by
  have hfallback : encodeSafe (some codec) (some errors) text = .ok ps := by
    simp only [encodeSafe, hstrict, asciiFallback, Option.getD_some,
      encodeWith_replacingUnencodable, bind, Except.bind, hdecode]
  rw [safeWrite, hfallback]
  rfl

end Encoding

/-- Every text is written as its characters are, unless the stream escapes surrogates and the
decoder reads a character from bytes that are not its own. -/
theorem safeWrite_eq_iff (codec : Codec) (errors : Errors) (text : List CodePoint) :
    safeWrite codec errors text = .ok (textBytes codec errors text) ↔
      (errors = .surrogateescape → codec.ReadsOwn (textBytes codec errors text)) := by
  cases hstrict : codec.encode .strict text with
  | ok bs =>
    obtain ⟨cs, rfl, hcs⟩ := Codec.exists_of_encode_strict hstrict
    have hwrite : safeWrite codec errors (cs.map .scalar) = .ok bs := by
      rw [safeWrite, encodeSafe, hstrict]
      exact Codec.encodeWith_map_scalar _ hcs
    rw [textBytes_map_scalar hcs, hwrite]
    simp [Codec.readsOwn_of_encodeAll hcs]
  | error e =>
    by_cases herrors : errors = .surrogateescape
    · subst herrors
      obtain ⟨ps, hdecode, hown⟩ :=
        codec.decode_surrogateescape (textBytes codec .surrogateescape text)
      rw [safeWrite_of_fallback hstrict hdecode, hown]
      simp
    · obtain ⟨cs, hcs⟩ := @exists_encodeAll_textBytes codec errors herrors text
      have hdecode := Codec.decode_of_encodeAll errors hcs
      rw [safeWrite_of_fallback hstrict hdecode]
      have hwrite : codec.encode errors (cs.map .scalar) = .ok (textBytes codec errors text) :=
        Codec.encodeWith_map_scalar _ hcs
      simp [hwrite, herrors]

/-- Where no character has a second byte sequence, every text is written as its characters are. -/
theorem safeWrite_of_canonical {codec : Codec} (hcodec : codec.Canonical) (errors : Errors)
    (text : List CodePoint) :
    safeWrite codec errors text = .ok (textBytes codec errors text) := by
  cases hstrict : codec.encode .strict text with
  | ok bs =>
    obtain ⟨cs, rfl, hcs⟩ := Codec.exists_of_encode_strict hstrict
    rw [textBytes_map_scalar hcs, safeWrite, encodeSafe, hstrict]
    exact Codec.encodeWith_map_scalar _ hcs
  | error e =>
    by_cases herrors : errors = .surrogateescape
    · subst herrors
      obtain ⟨ps, hdecode, hown⟩ :=
        codec.decode_surrogateescape (textBytes codec .surrogateescape text)
      rw [safeWrite_of_fallback hstrict hdecode]
      exact hown.mpr (hcodec.readsOwn _)
    · obtain ⟨cs, hcs⟩ := @exists_encodeAll_textBytes codec errors herrors text
      rw [safeWrite_of_fallback hstrict (Codec.decode_of_encodeAll errors hcs)]
      exact Codec.encodeWith_map_scalar _ hcs

theorem safeWrite_charTable (table : CharTable) (errors : Errors) (text : List CodePoint) :
    safeWrite table.codec errors text = .ok (textBytes table.codec errors text) :=
  safeWrite_of_canonical table.canonical_codec errors text

example :
    safeWrite latin1.codec .strict [.scalar '\u00E9', .scalar '\u2713', .scalar '\u20AC'] =
      .ok [0xE9, 0x5B, 0x4F, 0x4B, 0x5D, 0x3F] := by
  decide +kernel

theorem safeWrite_utf8 (bad : UInt8 → Bytes → Nat) (errors : Errors) (text : List CodePoint) :
    safeWrite (utf8 bad) errors text = .ok (textBytes (utf8 bad) errors text) :=
  safeWrite_of_canonical (canonical_utf8 bad) errors text

/-! ## A second byte sequence -/

/-- Two escaped bytes that a table of pairs reads as one character, which it writes as another pair,
come out as that pair. -/
theorem safeWrite_pair (table : PairTable) {b d : UInt8} (hb : 0x80 ≤ b) (hd : 0x80 ≤ d) {c : Char}
    (hc : 0x80 ≤ c.toNat) (hread : table.char b d = some c) {pair : UInt8 × UInt8}
    (hwritten : table.pair? c = some pair) :
    textBytes table.codec .surrogateescape [surrogateOf b, surrogateOf d] = [b, d] ∧
      safeWrite table.codec .surrogateescape [surrogateOf b, surrogateOf d] =
        .ok [pair.1, pair.2] := by
  have hbytes : textBytes table.codec .surrogateescape [surrogateOf b, surrogateOf d] = [b, d] := by
    have hescaped : ∀ e : UInt8, 0x80 ≤ e →
        charBytes table.codec .surrogateescape (surrogateOf e) = [e] := by
      intro e he
      unfold charBytes
      rw [onEncode_surrogateOf he]
      rfl
    rw [textBytes, List.flatMap_cons, List.flatMap_cons, hescaped b hb, hescaped d hd]
    rfl
  refine ⟨hbytes, ?_⟩
  have hstep : table.codec.decodeStep b [d] = .char c 1 := by
    simp [PairTable.codec, UInt8.not_lt.mpr hb, hread]
  have hdecode : table.codec.decode .surrogateescape [b, d] = .ok [.scalar c] := by
    simp [Codec.decode, Codec.decodeFuel, hstep, Except.map]
  have hencode : table.codec.encodeChar c = some [pair.1, pair.2] := by
    simp [PairTable.codec, Nat.not_lt.mpr hc, hwritten]
  rw [safeWrite_of_fallback rfl (hbytes ▸ hdecode), Codec.encode_scalar_cons]
  exact ⟨_, [], hencode, rfl, List.append_nil _⟩

/-- Of big5 the full-width solidus, which two pairs stand for. -/
def big5Solidus : PairTable where
  char b d := if (b, d) ∈ [(0xA1, 0xFE), (0xA2, 0x41)] then some '\uFF0F' else none
  pair? c := if c = '\uFF0F' then some (0xA2, 0x41) else none
  char_pair := by
    intro c b d h
    split at h
    · next hc =>
      obtain ⟨rfl, rfl⟩ := Prod.mk.inj (Option.some.inj h)
      exact ⟨by decide, hc ▸ rfl⟩
    · contradiction

/-- The bytes A1 and FE, escaped as surrogates, come out as A2 and 41. -/
theorem escaped_pair_lost :
    textBytes big5Solidus.codec .surrogateescape [.surrogate 0x4A1, .surrogate 0x4FE] =
      [0xA1, 0xFE] ∧
    safeWrite big5Solidus.codec .surrogateescape [.surrogate 0x4A1, .surrogate 0x4FE] =
      .ok [0xA2, 0x41] :=
  safeWrite_pair big5Solidus (b := 0xA1) (d := 0xFE) (by decide) (by decide) (by decide) rfl rfl

end SrvBackup.Specification
