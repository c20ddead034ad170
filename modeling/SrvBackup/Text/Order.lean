import Mathlib.Data.String.Basic
import Mathlib.Tactic.Common

/-!
# Lexicographic order on text with fixed-width fields

Names that embed numbers sort like the numbers exactly when each number has a fixed width.
`lex_append_iff` compares two texts field by field; `fixedDigits` is the decimal field of a
given width, and `fixedDigits_lt_iff` says its text order is the order of the numbers.
-/
namespace SrvBackup.Text

section Lex

variable {α : Type*} [LinearOrder α]

/-- Texts whose first fields have one length are compared by the first field, then the rest. -/
theorem lex_append_iff {a a' : List α} (hlen : a.length = a'.length) (b b' : List α) :
    a ++ b < a' ++ b' ↔ a < a' ∨ a = a' ∧ b < b' := by
  induction a generalizing a' with
  | nil =>
    obtain rfl : a' = [] := List.eq_nil_of_length_eq_zero hlen.symm
    simp
  | cons x xs ih =>
    cases a' with
    | nil => simp at hlen
    | cons y ys =>
      have := ih (Nat.succ.inj hlen)
      simp only [List.cons_append, List.cons_lt_cons_iff, this, List.cons.injEq]
      tauto

/-- A common first field does not matter. -/
theorem lex_append_left_iff (a b b' : List α) : a ++ b < a ++ b' ↔ b < b' := by
  simp [lex_append_iff (a := a) rfl]

/-- A common last field does not matter, once the first fields have one length. -/
theorem lex_append_right_iff {a a' : List α} (hlen : a.length = a'.length) (b : List α) :
    a ++ b < a' ++ b ↔ a < a' := by
  simp [lex_append_iff hlen]

end Lex

/-- What stands before the first separator and what follows it determine the text, and the other
way round. -/
theorem append_sep_inj {α : Type*} {sep : α} {a a' b b' : List α} (ha : sep ∉ a) (ha' : sep ∉ a') :
    a ++ sep :: b = a' ++ sep :: b' ↔ a = a' ∧ b = b' := by
  induction a generalizing a' with
  | nil =>
    cases a' with
    | nil => simp
    | cons y ys =>
      have hy : sep ≠ y := by grind
      simp [hy]
  | cons x xs ih =>
    cases a' with
    | nil =>
      have hx : x ≠ sep := by grind
      simp [hx]
    | cons y ys =>
      have hrest : xs ++ sep :: b = ys ++ sep :: b' ↔ xs = ys ∧ b = b' := by
        apply ih
        · grind
        · grind
      simp only [List.cons_append, List.cons.injEq, hrest, and_assoc]

/-- The last `w` decimal digits of `n`, most significant first. -/
def fixedDigits : Nat → Nat → List Char
  | 0, _ => []
  | w + 1, n => fixedDigits w (n / 10) ++ [Nat.digitChar (n % 10)]

@[simp] theorem length_fixedDigits (w n : Nat) : (fixedDigits w n).length = w := by
  induction w generalizing n with
  | zero => rfl
  | succ w ih => simp [fixedDigits, ih]

theorem digitChar_lt_iff {m n : Nat} (hm : m < 10) (hn : n < 10) :
    Nat.digitChar m < Nat.digitChar n ↔ m < n := by
  have table : ∀ i j : Fin 10, Nat.digitChar i < Nat.digitChar j ↔ i < j := by decide
  exact table ⟨m, hm⟩ ⟨n, hn⟩

theorem digitChar_inj {m n : Nat} (hm : m < 10) (hn : n < 10) :
    Nat.digitChar m = Nat.digitChar n ↔ m = n := by
  have hlt := digitChar_lt_iff hm hn
  have hgt := digitChar_lt_iff hn hm
  constructor
  · intro h
    rw [h] at hlt hgt
    simp only [lt_irrefl, false_iff] at hlt hgt
    omega
  · rintro rfl; rfl

theorem fixedDigits_inj {w m n : Nat} (hm : m < 10 ^ w) (hn : n < 10 ^ w) :
    fixedDigits w m = fixedDigits w n ↔ m = n := by
  induction w generalizing m n with
  | zero => simp at hm hn; simp [fixedDigits, hm, hn]
  | succ w ih =>
    have hq := ih (m := m / 10) (n := n / 10) (by omega) (by omega)
    have hd := digitChar_inj (Nat.mod_lt m (by decide : 0 < 10)) (Nat.mod_lt n (by decide))
    simp only [fixedDigits, List.append_singleton_inj, hq, hd]
    omega

/-- Fixed-width decimals sort as text the way they sort as numbers. -/
theorem fixedDigits_lt_iff {w m n : Nat} (hm : m < 10 ^ w) (hn : n < 10 ^ w) :
    fixedDigits w m < fixedDigits w n ↔ m < n := by
  induction w generalizing m n with
  | zero => simp at hm hn; simp [fixedDigits, hm, hn]
  | succ w ih =>
    have hq := ih (m := m / 10) (n := n / 10) (by omega) (by omega)
    have he := fixedDigits_inj (w := w) (m := m / 10) (n := n / 10) (by omega) (by omega)
    have hd := digitChar_lt_iff (Nat.mod_lt m (by decide : 0 < 10)) (Nat.mod_lt n (by decide))
    rw [fixedDigits, fixedDigits, lex_append_iff (by simp), hq, he]
    simp only [List.cons_lt_cons_iff, hd, List.not_lt_nil, and_false, or_false]
    omega

/-- A number with exactly `w + 1` digits is written without padding. -/
theorem toDigits_eq_fixedDigits {w n : Nat} (hlo : 10 ^ w ≤ n) (hhi : n < 10 ^ (w + 1)) :
    Nat.toDigits 10 n = fixedDigits (w + 1) n := by
  induction w generalizing n with
  | zero =>
    have hn : n < 10 := by omega
    simp [Nat.toDigits_of_lt_base hn, fixedDigits, Nat.mod_eq_of_lt hn]
  | succ w ih =>
    have hten : 10 ≤ n := le_trans (Nat.le_self_pow (by omega) 10) hlo
    rw [Nat.toDigits_of_base_le (by decide) hten, ih (n := n / 10) (by omega) (by omega)]
    rfl

end SrvBackup.Text
