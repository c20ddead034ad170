import SrvBackup.Text.Codec

/-!
# Encodings

Tables of single bytes, such as latin-1 and cp1252, and UTF-8 have no second byte sequence for a
character. A table of pairs of bytes, such as big5, can have one.
-/
namespace SrvBackup.Text

/-- What the single bytes stand for. -/
structure CharTable where
  char : UInt8 → Option Char
  char_ascii : ∀ b, b < 0x80 → char b = some (Char.ofNat b.toNat)
  char_inj : ∀ {b d c}, char b = some c → char d = some c → b = d

namespace CharTable

variable (table : CharTable)

def byte? (c : Char) : Option UInt8 :=
  ((List.range 256).map Nat.toUInt8).find? fun b => table.char b = some c

theorem byte?_eq_some_iff {c : Char} {b : UInt8} :
    table.byte? c = some b ↔ table.char b = some c := by
  constructor
  · intro h
    simpa using List.find?_some h
  · intro h
    have hmem : b ∈ (List.range 256).map Nat.toUInt8 :=
      List.mem_map.mpr ⟨b.toNat, List.mem_range.mpr b.toNat_lt, by simp⟩
    cases hfind : table.byte? c with
    | none => exact absurd h (by simpa using List.find?_eq_none.mp hfind b hmem)
    | some d =>
      have hd : table.char d = some c := by simpa using List.find?_some hfind
      exact congrArg some (table.char_inj hd h)

def codec : Codec where
  encodeChar c := (table.byte? c).map ([·])
  decodeStep b _ := match table.char b with
    | some c => .char c 0
    | none => .invalid 0
  encodeChar_ne_nil c := by cases table.byte? c <;> simp
  encodeChar_ascii c hc := by
    have hbyte := table.char_ascii c.toNat.toUInt8 (by
      rw [UInt8.lt_iff_toNat_lt, toNat_toUInt8 hc]
      exact hc)
    rw [toNat_toUInt8 hc, Char.ofNat_toNat] at hbyte
    rw [(table.byte?_eq_some_iff).mpr hbyte]
    rfl
  decodeStep_encodeChar := by
    intro c b bs rest h
    obtain ⟨d, hd, heq⟩ := Option.map_eq_some_iff.mp h
    obtain ⟨rfl, rfl⟩ := List.cons.inj heq
    simp [(table.byte?_eq_some_iff).mp hd]

theorem canonical_codec : table.codec.Canonical := by
  intro b bs c more h
  cases hchar : table.char b with
  | none => simp [codec, hchar] at h
  | some d =>
    obtain ⟨rfl, rfl⟩ : d = c ∧ 0 = more := by simpa [codec, hchar] using h
    simp [codec, (table.byte?_eq_some_iff).mpr hchar]

end CharTable

/-- The bytes of latin-1 are the first characters of Unicode. -/
def latin1 : CharTable where
  char b := some (Char.ofNat b.toNat)
  char_ascii _ _ := rfl
  char_inj := by
    intro b d c hb hd
    have heq := congrArg Char.toNat (Option.some.inj (hb.trans hd.symm))
    rw [toNat_ofNat_toNat, toNat_ofNat_toNat] at heq
    exact UInt8.toNat_inj.mp heq

/-- UTF-8. How many bytes the decoder takes for one that stands for nothing is left open. -/
def utf8 (bad : UInt8 → Bytes → Nat) : Codec where
  encodeChar c := some (String.utf8EncodeChar c)
  decodeStep b bs := match (b :: bs).toByteArray.utf8DecodeChar? 0 with
    | some c => .char c (c.utf8Size - 1)
    | none => .invalid (bad b bs)
  encodeChar_ne_nil c h := by
    have hlength := String.length_utf8EncodeChar c
    rw [Option.some.inj h] at hlength
    exact absurd hlength.symm (Nat.ne_of_gt c.utf8Size_pos)
  encodeChar_ascii c hc := by
    have hval : c.val ≤ 0x7F := UInt32.le_iff_toNat_le.mpr (Nat.le_of_lt_succ hc)
    have hsize : c.utf8Size = 1 := by
      unfold Char.utf8Size
      exact if_pos hval
    rw [String.utf8EncodeChar_eq_singleton hsize]
    rfl
  decodeStep_encodeChar := by
    intro c b bs rest h
    have hbytes := Option.some.inj h
    have hlength := String.length_utf8EncodeChar c
    have hdecode := ByteArray.utf8DecodeChar?_utf8EncodeChar_append
      (b := rest.toByteArray) (c := c)
    rw [hbytes, ← List.toByteArray_append, List.cons_append] at hdecode
    rw [hbytes, List.length_cons] at hlength
    simp only [hdecode, ← hlength, Nat.add_sub_cancel]

theorem canonical_utf8 (bad : UInt8 → Bytes → Nat) : (utf8 bad).Canonical := by
  intro b bs c more h
  cases hdecode : (b :: bs).toByteArray.utf8DecodeChar? 0 with
  | none => simp [utf8, hdecode] at h
  | some d =>
    obtain ⟨rfl, rfl⟩ : d = c ∧ d.utf8Size - 1 = more := by simpa [utf8, hdecode] using h
    obtain ⟨rest, hrest⟩ := ByteArray.exists_of_utf8DecodeChar?_eq_some hdecode
    have hbytes := congrArg (fun bytes => bytes.data.toList) hrest
    simp only [ByteArray.data_append, Array.toList_append, List.toList_data_toByteArray]
      at hbytes
    have hlength := String.length_utf8EncodeChar d
    cases hfront : String.utf8EncodeChar d with
    | nil =>
      rw [hfront] at hlength
      exact absurd hlength.symm (Nat.ne_of_gt d.utf8Size_pos)
    | cons b' front =>
      rw [hfront] at hbytes hlength
      obtain ⟨rfl, rfl⟩ := List.cons.inj hbytes
      simp [utf8, hfront, ← hlength]

/-- What two bytes stand for, and the pair that is written for a character. -/
structure PairTable where
  char : UInt8 → UInt8 → Option Char
  pair? : Char → Option (UInt8 × UInt8)
  char_pair : ∀ {c b d}, pair? c = some (b, d) → ¬ b < 0x80 ∧ char b d = some c

namespace PairTable

variable (table : PairTable)

/-- ASCII in single bytes, every other character in two. -/
def codec : Codec where
  encodeChar c :=
    if c.toNat < 0x80 then some [c.toNat.toUInt8]
    else (table.pair? c).map fun pair => [pair.1, pair.2]
  decodeStep b bs :=
    if b < 0x80 then .char (Char.ofNat b.toNat) 0
    else match bs.head?.bind (table.char b) with
      | some c => .char c 1
      | none => .invalid 0
  encodeChar_ne_nil c := by
    split
    · simp
    · cases table.pair? c <;> simp
  encodeChar_ascii c hc := if_pos hc
  decodeStep_encodeChar := by
    intro c b bs rest h
    split at h
    case isTrue hc =>
      obtain ⟨rfl, rfl⟩ := List.cons.inj (Option.some.inj h)
      have hlow : c.toNat.toUInt8 < 0x80 := by
        rw [UInt8.lt_iff_toNat_lt, toNat_toUInt8 hc]
        exact hc
      rw [if_pos hlow, toNat_toUInt8 hc, Char.ofNat_toNat, List.length_nil]
    case isFalse =>
      obtain ⟨⟨b', d⟩, hpair, hbytes⟩ := Option.map_eq_some_iff.mp h
      obtain ⟨rfl, rfl⟩ := List.cons.inj hbytes
      obtain ⟨hhigh, hchar⟩ := table.char_pair hpair
      simp [hhigh, hchar]

end PairTable

end SrvBackup.Text
