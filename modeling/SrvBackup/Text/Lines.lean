import Mathlib.Data.List.DropRight
import Mathlib.Data.List.Infix
import Mathlib.Tactic.Common

/-!
# Whitespace and lines

`strip` and `splitlines` as Python has them on text, and what the pieces of a text between
separators contain.
-/
namespace SrvBackup.Text

/-- Decided along the list; the instance for all characters would go through every one of them. -/
instance (priority := high) decidableForallMemChars {p : Char → Prop} [DecidablePred p]
    (cs : List Char) : Decidable (∀ c ∈ cs, p c) := List.decidableBAll p cs

/-- `str.isspace` of one character. -/
def isSpace (c : Char) : Bool :=
  let n := c.toNat
  (9 ≤ n && n ≤ 13) || (28 ≤ n && n ≤ 32) || n == 0x85 || n == 0xa0 || n == 0x1680 ||
    (0x2000 ≤ n && n ≤ 0x200a) || n == 0x2028 || n == 0x2029 || n == 0x202f || n == 0x205f ||
    n == 0x3000

/-- `s.strip()`. -/
def strip (s : String) : String :=
  String.ofList ((s.toList.dropWhile isSpace).rdropWhile isSpace)

/-- A line boundary of `splitlines`; `\r\n` is one boundary. -/
def isLineBreak (c : Char) : Bool :=
  let n := c.toNat
  (10 ≤ n && n ≤ 13) || (28 ≤ n && n ≤ 30) || n == 0x85 || n == 0x2028 || n == 0x2029

/-- The lines of `cs`, where `line` is the part of the current line already read. -/
def linesFrom (line : List Char) : List Char → List (List Char)
  | [] => if line.isEmpty then [] else [line]
  | '\r' :: '\n' :: cs => line :: linesFrom [] cs
  | c :: cs => if isLineBreak c then line :: linesFrom [] cs else linesFrom (line ++ [c]) cs

/-- `s.splitlines()`. -/
def splitlines (s : String) : List String := (linesFrom [] s.toList).map String.ofList

example : splitlines "rpool@a\nrpool/data@a\r\n\nx" = ["rpool@a", "rpool/data@a", "", "x"] := by
  decide

/-! ## Reading lines back -/

theorem linesFrom_append {line name : List Char} (hname : ∀ c ∈ name, isLineBreak c = false)
    (cs : List Char) : linesFrom line (name ++ '\n' :: cs) = (line ++ name) :: linesFrom [] cs := by
  induction name generalizing line with
  | nil => simp [linesFrom, isLineBreak]
  | cons c name ih =>
    have hc : isLineBreak c = false := hname c (by simp)
    have hreturn : c ≠ '\r' := by rintro rfl; exact absurd hc (by decide)
    rw [List.cons_append, linesFrom, if_neg (by simp [hc]), ih fun c hc => hname c (by simp [hc])]
    · simp
    · exact fun _ h => absurd h hreturn

theorem linesFrom_ne_nil {line cs : List Char} (h : line ≠ [] ∨ cs ≠ []) :
    linesFrom line cs ≠ [] := by
  fun_induction linesFrom line cs with
  | case1 => simp_all
  | case2 => simp
  | case3 => simp
  | case4 => simp
  | case5 line c cs _ _ ih => exact ih (.inl (by simp))

/-- A text that is not empty has a first line. -/
theorem splitlines_ne_nil {s : String} (h : s ≠ "") : splitlines s ≠ [] := by
  have hs : s.toList ≠ [] := fun hnil => h (String.toList_inj.mp hnil)
  simpa [splitlines] using linesFrom_ne_nil (.inr hs)

/-- The text with each name on a line of its own. -/
def unlines (names : List String) : String := String.join (names.map (· ++ "\n"))

theorem splitlines_unlines {names : List String}
    (hnames : ∀ name ∈ names, ∀ c ∈ name.toList, isLineBreak c = false) :
    splitlines (unlines names) = names := by
  have hlines : linesFrom [] (unlines names).toList = names.map String.toList := by
    induction names with
    | nil => rfl
    | cons name names ih =>
      have htext : (unlines (name :: names)).toList =
          name.toList ++ '\n' :: (unlines names).toList := by
        simp [unlines, String.toList_append]
      rw [htext, linesFrom_append (hnames name (by simp)), ih fun n hn => hnames n (by simp [hn])]
      rfl
  simp [splitlines, hlines]

/-! ## Pieces between separators -/

section Pieces

variable {α : Type} [DecidableEq α] {sep : α}

/-- The first piece has the beginnings of the text, up to a separator. -/
theorem exists_splitOn_cons (xs : List α) :
    ∃ first rest, xs.splitOn sep = first :: rest ∧
      ∀ key, sep ∉ key → (key <+: first ↔ key <+: xs) := by
  induction xs with
  | nil => exact ⟨[], [], List.splitOn_nil sep, fun _ _ => Iff.rfl⟩
  | cons x xs ih =>
    obtain ⟨first, rest, hsplit, hfirst⟩ := ih
    rw [List.splitOn_cons_eq_if_modifyHead]
    by_cases hx : x = sep
    · refine ⟨[], xs.splitOn sep, by simp [hx], fun key hkey => ?_⟩
      cases key with
      | nil => simp
      | cons y ys => simpa [hx] using fun h : y = sep => absurd h (fun h => hkey (by simp [h]))
    · refine ⟨x :: first, rest, by simp [hx, hsplit], fun key hkey => ?_⟩
      cases key with
      | nil => simp
      | cons y ys => simp [List.cons_prefix_cons, hfirst ys fun h => hkey (by simp [h])]

/-- A text without separators is in some piece exactly if it is in the whole. -/
theorem exists_infix_piece {key : List α} (hkey : sep ∉ key) (xs : List α) :
    (∃ piece ∈ xs.splitOn sep, key <:+: piece) ↔ key <:+: xs := by
  induction xs with
  | nil => simp [List.splitOn_nil]
  | cons x xs ih =>
    rw [List.splitOn_cons_eq_if_modifyHead, List.infix_cons_iff, ← ih]
    by_cases hx : x = sep
    · have hnil : key <+: sep :: xs → key = [] := by
        cases key with
        | nil => simp
        | cons y ys => simpa using fun (h : y = sep) _ => hkey (by simp [h])
      rw [if_pos (by simp [hx]), hx]
      constructor
      · rintro ⟨piece, hpiece, hin⟩
        rcases List.mem_cons.mp hpiece with rfl | hpiece
        · exact .inl (by simp [List.eq_nil_of_infix_nil hin])
        · exact .inr ⟨piece, hpiece, hin⟩
      · rintro (hpre | ⟨piece, hpiece, hin⟩)
        · exact ⟨[], by simp, by simp [hnil hpre]⟩
        · exact ⟨piece, by simp [hpiece], hin⟩
    · obtain ⟨first, rest, hsplit, hfirst⟩ := @exists_splitOn_cons α _ sep xs
      have hpre : key <+: x :: first ↔ key <+: x :: xs := by
        cases key with
        | nil => simp
        | cons y ys => simp [List.cons_prefix_cons, hfirst ys fun h => hkey (by simp [h])]
      rw [if_neg (by simp [hx]), hsplit, ← hpre]
      simp [List.infix_cons_iff, or_assoc]

/-- More text without separators lengthens the last piece. -/
theorem splitOn_append_of_notMem {more : List α} (hmore : sep ∉ more) (xs : List α) :
    (xs ++ more).splitOn sep =
      (xs.splitOn sep).dropLast ++ [(xs.splitOn sep).getLastD [] ++ more] := by
  induction xs with
  | nil => simpa [List.splitOn_nil] using List.splitOn_eq_singleton hmore
  | cons x xs ih =>
    obtain ⟨first, rest, hsplit, -⟩ := @exists_splitOn_cons α _ sep xs
    rw [List.cons_append, List.splitOn_cons_eq_if_modifyHead, List.splitOn_cons_eq_if_modifyHead,
      ih, hsplit]
    by_cases hx : x = sep
    · simp [hx]
    · cases rest <;> simp [hx]

theorem splitOn_eq_dropLast_append (xs : List α) :
    xs.splitOn sep = (xs.splitOn sep).dropLast ++ [(xs.splitOn sep).getLastD []] := by
  simpa using splitOn_append_of_notMem (by simp : sep ∉ []) xs

/-- The pieces have no separators. -/
theorem notMem_of_mem_splitOn {xs piece : List α} (hpiece : piece ∈ xs.splitOn sep) :
    sep ∉ piece := by
  induction xs generalizing piece with
  | nil => simp_all [List.splitOn_nil]
  | cons x xs ih =>
    obtain ⟨first, rest, hsplit, -⟩ := @exists_splitOn_cons α _ sep xs
    rw [List.splitOn_cons_eq_if_modifyHead, hsplit] at hpiece
    rw [hsplit] at ih
    split at hpiece
    · rcases List.mem_cons.mp hpiece with rfl | hpiece
      · simp
      · exact ih hpiece
    · next hx =>
      rcases List.mem_cons.mp hpiece with rfl | hpiece
      · have hfirst := ih (List.mem_cons_self ..)
        simp only [List.mem_cons, not_or]
        exact ⟨fun h => hx (by simp [h]), hfirst⟩
      · exact ih (List.mem_cons_of_mem _ hpiece)

omit [DecidableEq α] in
/-- Where a text goes on with a separator and nothing in what follows is the last but one element of
a key that ends with the separator, the front decides if the key is in it. -/
theorem infix_append_sep_iff {key : List α} {c : α} {xs ys : List α} (hsep : c ≠ sep)
    (hys : c ∉ ys) :
    key ++ [c, sep] <:+: xs ++ sep :: ys ↔ key ++ [c, sep] <:+: xs ∨ key ++ [c] <:+ xs := by
  have hc : c ∉ sep :: ys := by grind
  rw [List.infix_append_iff]
  constructor
  · rintro (h | h | ⟨front, back, hkey, hfront, hback⟩)
    · exact .inl h
    · exact absurd (h.subset (by simp)) hc
    · rcases List.eq_nil_or_concat back with rfl | ⟨middle, b, rfl⟩
      · rw [List.append_nil] at hkey
        exact .inl (hkey ▸ hfront.isInfix)
      · have hends : key ++ [c] = front ++ middle ∧ sep = b := by
          refine List.append_singleton_inj.mp ?_
          simpa using hkey
        rcases List.eq_nil_or_concat middle with rfl | ⟨before, b', rfl⟩
        · exact .inr (by simpa [hends.1] using hfront)
        · have hlast : c = b' := by
            simpa using congrArg List.getLast? hends.1
          exact absurd (hback.subset (by simp [hlast])) hc
  · rintro (h | h)
    · exact .inl h
    · exact .inr (.inr ⟨key ++ [c], [sep], by simp, h, by simp⟩)

omit [DecidableEq α] in
theorem infix_intercalate {pieces : List (List α)} {piece : List α} (hpiece : piece ∈ pieces)
    (sep : α) : piece <:+: [sep].intercalate pieces := by
  induction pieces with
  | nil => cases hpiece
  | cons first pieces ih =>
    cases pieces with
    | nil => simpa using (List.mem_singleton.mp hpiece) ▸ List.infix_rfl
    | cons second pieces =>
      rw [List.intercalate_cons_cons]
      rcases List.mem_cons.mp hpiece with rfl | hpiece
      · exact ⟨[], [sep] ++ [sep].intercalate (second :: pieces), by simp⟩
      · exact (ih hpiece).trans (List.suffix_append _ _).isInfix

theorem infix_of_mem_splitOn {xs piece : List α} (hpiece : piece ∈ xs.splitOn sep) :
    piece <:+: xs := by
  simpa using infix_intercalate hpiece sep

omit [DecidableEq α] in
theorem intercalate_append {ps rs : List (List α)} (hps : ps ≠ []) (hrs : rs ≠ []) :
    [sep].intercalate (ps ++ rs) = [sep].intercalate ps ++ sep :: [sep].intercalate rs := by
  induction ps with
  | nil => exact absurd rfl hps
  | cons p ps ih =>
    cases ps with
    | nil => simp [List.intercalate_cons_of_ne_nil hrs]
    | cons q ps =>
      have hjoin := ih (by simp)
      rw [List.cons_append] at hjoin
      rw [List.cons_append, List.cons_append, List.intercalate_cons_cons, hjoin,
        List.intercalate_cons_cons]
      simp

/-- Pieces without separators can be told from the joined text. -/
theorem intercalate_inj {ps qs : List (List α)} (hp : ∀ p ∈ ps, sep ∉ p) (hq : ∀ q ∈ qs, sep ∉ q)
    (hpne : ps ≠ []) (hqne : qs ≠ []) :
    [sep].intercalate ps = [sep].intercalate qs ↔ ps = qs := by
  refine ⟨fun h => ?_, fun h => by rw [h]⟩
  have hsplit := congrArg (List.splitOn sep) h
  rwa [List.splitOn_intercalate sep hp hpne, List.splitOn_intercalate sep hq hqne] at hsplit

/-- One joined text and a separator begin another joined text exactly if the pieces of the one are
the first but not all pieces of the other. -/
theorem intercalate_sep_prefix_iff {ps qs : List (List α)} (hp : ∀ p ∈ ps, sep ∉ p)
    (hq : ∀ q ∈ qs, sep ∉ q) (hpne : ps ≠ []) (hqne : qs ≠ []) :
    [sep].intercalate ps ++ [sep] <+: [sep].intercalate qs ↔ ps <+: qs ∧ ps ≠ qs := by
  constructor
  · rintro ⟨rest, hrest⟩
    have hsplit := congrArg (List.splitOn sep) hrest
    rw [List.append_assoc, List.singleton_append, List.splitOn_append_cons_self,
      List.splitOn_intercalate sep hp hpne, List.splitOn_intercalate sep hq hqne] at hsplit
    refine ⟨⟨_, hsplit⟩, fun heq => List.splitOn_ne_nil sep rest ?_⟩
    rw [← heq] at hsplit
    simp at hsplit
  · rintro ⟨⟨rs, rfl⟩, hne⟩
    have hrs : rs ≠ [] := by grind
    rw [intercalate_append hpne hrs]
    simp

end Pieces

/-! ## What stripping keeps -/

/-- A text of other characters survives the removal of what is before it. -/
theorem infix_dropWhile {α : Type} {p : α → Bool} {key : List α} (hkey : ∀ c ∈ key, p c = false)
    (hne : key ≠ []) {xs : List α} (h : key <:+: xs) : key <:+: xs.dropWhile p := by
  induction xs with
  | nil => exact h
  | cons x xs ih =>
    rw [List.dropWhile_cons]
    split
    · next hx =>
      rcases List.infix_cons_iff.mp h with hpre | hin
      · obtain ⟨c, cs, rfl⟩ := List.exists_cons_of_ne_nil hne
        obtain ⟨rfl, -⟩ := List.cons_prefix_cons.mp hpre
        rw [hkey c (by simp)] at hx
        cases hx
      · exact ih hin
    · exact h

theorem infix_strip {key : List Char} (hkey : ∀ c ∈ key, isSpace c = false) (hne : key ≠ [])
    {s : String} (h : key <:+: s.toList) : key <:+: (strip s).toList := by
  rw [strip, String.toList_ofList, List.rdropWhile]
  rw [← List.reverse_infix, List.reverse_reverse]
  refine infix_dropWhile (by simpa using hkey) (by simpa using hne) ?_
  exact List.reverse_infix.mpr (infix_dropWhile hkey hne h)

theorem strip_sublist (s : String) : (strip s).toList.Sublist s.toList := by
  rw [strip, String.toList_ofList]
  exact (List.rdropWhile_prefix _ _).sublist.trans (List.dropWhile_sublist _)

end SrvBackup.Text
