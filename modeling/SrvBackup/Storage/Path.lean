import Mathlib.Data.List.Infix
import Mathlib.Tactic.Common

/-!
# Paths

Pure paths as `pathlib` has them on POSIX: a root and components, where a component is a text
without `/` that is neither empty nor `.`; parsing drops the empty and `.` pieces and keeps `..`.
`locate` is the location the system resolves a path to, in a tree without links.

The final-suffix rules changed with Python 3.14, which counts a final dot as a suffix and skips
every leading dot; `Pathlib` names the two rules.
-/
namespace SrvBackup.Storage

/-- One step of a path. -/
abbrev Component := { s : String // s ≠ "" ∧ s ≠ "." ∧ '/' ∉ s.toList }

def Component.of? (s : String) : Option Component :=
  if h : s ≠ "" ∧ s ≠ "." ∧ '/' ∉ s.toList then some ⟨s, h⟩ else none

@[simp] theorem Component.of?_val (x : Component) : Component.of? x.val = some x := dif_pos x.2

/-- A text long enough not to be `.` or `..` that has no slash names an entry. -/
theorem exists_component {s : String} (hslash : '/' ∉ s.toList) (hlen : 3 ≤ s.toList.length) :
    ∃ x : Component, x.val = s ∧ x.val ≠ ".." := by
  have hne : ∀ t : String, t.toList.length < 3 → s ≠ t := by
    rintro t ht rfl
    omega
  exact ⟨⟨s, hne "" (by decide), hne "." (by decide), hslash⟩, rfl, hne ".." (by decide)⟩

/-- So does a slash-free text with a character other than a dot. -/
theorem exists_component_of_mem {s : String} (hslash : '/' ∉ s.toList) {c : Char}
    (hc : c ∈ s.toList) (hdot : c ≠ '.') : ∃ x : Component, x.val = s ∧ x.val ≠ ".." := by
  have hne : ∀ t : String, (∀ b ∈ t.toList, b = '.') → s ≠ t := by
    rintro t ht rfl
    exact hdot (ht c hc)
  exact ⟨⟨s, hne "" (by simp), hne "." (by simp), hslash⟩, rfl, hne ".." (by simp)⟩

/-- What a path begins with. Exactly two slashes are a root of their own. -/
inductive Root where
  | none
  | slash
  | slashes
  deriving DecidableEq, Repr

def Root.text : Root → String
  | none => ""
  | slash => "/"
  | slashes => "//"

/-- The root of a text, by the number of slashes it begins with. -/
def Root.of (s : String) : Root :=
  match (s.toList.takeWhile (· == '/')).length with
  | 0 => none
  | 2 => slashes
  | _ => slash

theorem Root.of_eq_none_iff {s : String} : Root.of s = none ↔ s.toList.head? ≠ some '/' := by
  unfold Root.of
  cases s.toList with
  | nil => simp
  | cons c cs =>
    by_cases hc : c = '/'
    · cases htake : cs.takeWhile (· == '/') with
      | nil => simp [hc, htake]
      | cons d ds => cases ds <;> simp [hc, htake]
    · simp [hc]

/-- What follows the slashes does not count. -/
theorem Root.of_append {s t : String} (ht : t.toList.head? ≠ some '/') :
    Root.of (s ++ t) = Root.of s := by
  have htake : t.toList.takeWhile (· == '/') = [] := by
    cases hcs : t.toList with
    | nil => rfl
    | cons c cs =>
      rw [hcs] at ht
      exact List.takeWhile_cons_of_neg (by simpa using ht)
  have hslashes : ((s ++ t).toList.takeWhile (· == '/')).length =
      (s.toList.takeWhile (· == '/')).length := by
    rw [String.toList_append, List.takeWhile_append, htake, List.append_nil]
    split <;> simp [*]
  rw [Root.of, hslashes, Root.of]

@[simp] theorem Root.of_text (root : Root) : Root.of root.text = root := by
  cases root <;> decide

/-- A text that begins with a component does not begin with a slash. -/
theorem head_component_append (x : Component) (t : String) :
    (x.val ++ t).toList.head? ≠ some '/' := by
  obtain ⟨s, hne, -, hslash⟩ := x
  rw [String.toList_append]
  cases hs : s.toList with
  | nil => exact absurd (String.toList_inj.mp hs) hne
  | cons c cs =>
    rw [hs] at hslash
    simpa using fun h : c = '/' => hslash (by simp [h])

structure Path where
  root : Root
  parts : List Component
  deriving DecidableEq

/-- The components of a text: its pieces between slashes, less the empty and `.` ones. -/
def components (s : String) : List Component :=
  (s.toList.splitOn '/').filterMap fun piece => Component.of? (String.ofList piece)

/-- A component is the only one of its text. -/
@[simp] theorem components_val (x : Component) : components x.val = [x] := by
  rw [components, List.splitOn_eq_singleton x.2.2.2]
  simp

theorem components_empty : components "" = [] := by decide

theorem components_slash (s t : String) :
    components (s ++ "/" ++ t) = components s ++ components t := by
  simp only [components, String.toList_append, List.append_assoc]
  exact (congrArg _ (List.splitOn_append_cons_self s.toList t.toList)).trans List.filterMap_append

/-- A text is a part that ends with a slash and a last piece, and what follows the text continues
the last piece. -/
theorem exists_last_piece (s : String) :
    ∃ (front : List Component) (last : String), '/' ∉ last.toList ∧
      ∀ t, components (s ++ t) = front ++ components (last ++ t) := by
  have hlist : ∀ l : List Char, '/' ∉ l ∨ ∃ b last, l = b ++ '/' :: last ∧ '/' ∉ last := by
    intro l
    induction l with
    | nil => exact .inl (by simp)
    | cons c l ih =>
      rcases ih with h | ⟨b, last, rfl, h⟩
      · by_cases hc : c = '/'
        · exact .inr ⟨[], l, by simp [hc], h⟩
        · exact .inl (by simpa [h] using fun h => hc h.symm)
      · exact .inr ⟨c :: b, last, rfl, h⟩
  rcases hlist s.toList with h | ⟨b, last, hs, h⟩
  · exact ⟨[], s, h, fun t => rfl⟩
  · refine ⟨components (String.ofList b), String.ofList last, by simpa using h, fun t => ?_⟩
    have hjoin : s ++ t = String.ofList b ++ "/" ++ (String.ofList last ++ t) := by
      rw [← String.toList_inj]
      simp [hs]
    rw [hjoin, components_slash]

namespace Path

def ofString (s : String) : Path := ⟨Root.of s, components s⟩

/-- `p / q`: an absolute right side replaces the left one. -/
def join (p q : Path) : Path := if q.root = .none then ⟨p.root, p.parts ++ q.parts⟩ else q

instance : HDiv Path String Path := ⟨fun p s => p.join (ofString s)⟩

/-- The path of an entry `x` of the directory `p`. -/
def child (p : Path) (x : Component) : Path := ⟨p.root, p.parts ++ [x]⟩

def parent (p : Path) : Path := ⟨p.root, p.parts.dropLast⟩

def name (p : Path) : String := (p.parts.getLast?.map Subtype.val).getD ""

/-- `str(p)`. -/
def str (p : Path) : String :=
  if p.parts = [] ∧ p.root = .none then "."
  else p.root.text ++ "/".intercalate (p.parts.map Subtype.val)

/-! ## Suffixes -/

/-- The text of a name before its last dot and after it. -/
def splitLastDot : List Char → Option (List Char × List Char)
  | [] => none
  | c :: cs =>
    match splitLastDot cs with
    | some (front, back) => some (c :: front, back)
    | none => if c = '.' then some ([], cs) else none

/-- Which rule a Python release has for the final suffix. -/
inductive Pathlib where
  /-- neither a leading nor a trailing dot makes a suffix -/
  | upTo313
  /-- only dots after something else make a suffix, a trailing one too -/
  | from314
  deriving DecidableEq, Repr

/-- The last dot of a name begins its suffix. -/
def Pathlib.Counts (front back : List Char) : Pathlib → Prop
  | .upTo313 => front ≠ [] ∧ back ≠ []
  | .from314 => ∃ c ∈ front, c ≠ '.'

instance (front back : List Char) : (rule : Pathlib) → Decidable (rule.Counts front back)
  | .upTo313 => inferInstanceAs (Decidable (front ≠ [] ∧ back ≠ []))
  | .from314 => List.decidableBEx (fun c => c ≠ '.') front

/-- `PurePath(name).stem`. -/
def Pathlib.stem (rule : Pathlib) (name : String) : String :=
  match splitLastDot name.toList with
  | some (front, back) => if rule.Counts front back then String.ofList front else name
  | none => name

theorem splitLastDot_eq_some {cs front back : List Char}
    (h : splitLastDot cs = some (front, back)) : cs = front ++ '.' :: back := by
  induction cs generalizing front with
  | nil => cases h
  | cons c cs ih =>
    rw [splitLastDot] at h
    cases hcs : splitLastDot cs with
    | some pieces =>
      obtain ⟨front', back'⟩ := pieces
      simp only [hcs] at h
      cases h
      rw [ih hcs, List.cons_append]
    | none =>
      simp only [hcs] at h
      by_cases hdot : c = '.'
      · rw [if_pos hdot] at h
        cases h
        rw [hdot, List.nil_append]
      · rw [if_neg hdot] at h
        cases h

theorem splitLastDot_append (front : List Char) {back : List Char} (hback : '.' ∉ back) :
    splitLastDot (front ++ '.' :: back) = some (front, back) := by
  have hnone : splitLastDot back = none := by
    cases hsplit : splitLastDot back with
    | none => rfl
    | some pieces => exact absurd (by rw [splitLastDot_eq_some hsplit]; simp) hback
  induction front with
  | nil => simp [splitLastDot, hnone]
  | cons c front ih => simp [splitLastDot, ih]

/-- A name with a dot and more after a part that is not of dots only has a suffix. -/
theorem Pathlib.stem_append (rule : Pathlib) {front : String} {back : List Char}
    (hfront : ∃ c ∈ front.toList, c ≠ '.') (hback : '.' ∉ back) (hne : back ≠ []) :
    rule.stem (front ++ String.ofList ('.' :: back)) = front := by
  have hsplit : splitLastDot (front ++ String.ofList ('.' :: back)).toList =
      some (front.toList, back) := by
    rw [String.toList_append, String.toList_ofList, splitLastDot_append _ hback]
  have hcounts : rule.Counts front.toList back := by
    cases rule with
    | upTo313 =>
      obtain ⟨c, hc, -⟩ := hfront
      exact ⟨List.ne_nil_of_mem hc, hne⟩
    | from314 => exact hfront
  rw [stem, hsplit]
  simp [hcounts]

theorem Pathlib.mem_of_mem_stem {rule : Pathlib} {name : String} {c : Char}
    (hc : c ∈ (rule.stem name).toList) : c ∈ name.toList := by
  unfold stem at hc
  split at hc
  · next front back hsplit =>
    split at hc
    · rw [splitLastDot_eq_some hsplit]
      exact List.mem_append_left _ (by simpa using hc)
    · exact hc
  · exact hc

def withName (p : Path) (name : String) : Path :=
  match Component.of? name with
  | some x => p.parent.child x
  | none => p

/-- `p.with_suffix(suffix)`, for a suffix that begins with a dot and a path that has a name. -/
def withSuffix (rule : Pathlib) (p : Path) (suffix : String) : Path :=
  p.withName (rule.stem p.name ++ suffix)

/-- Going up one step at `..`, down one step otherwise. -/
def walk (loc : List Component) (x : Component) : List Component :=
  if x.val = ".." then loc.dropLast else loc ++ [x]

/-- The location of a path, seen from the working directory `cwd`. -/
def locate (cwd : List Component) (p : Path) : List Component :=
  p.parts.foldl walk (if p.root = .none then cwd else [])

/-- Joining with an entry name goes to the entry. -/
theorem div_val (p : Path) (x : Component) : p / x.val = p.child x := by
  have hrel : ofString x.val = ⟨.none, [x]⟩ := by
    have hhead := head_component_append x ""
    rw [String.append_empty] at hhead
    simp [ofString, Root.of_eq_none_iff.mpr hhead]
  change p.join (ofString x.val) = p.child x
  rw [hrel]
  rfl

@[simp] theorem parent_child (p : Path) (x : Component) : (p.child x).parent = p := by
  simp [parent, child]

@[simp] theorem name_child (d : Path) (x : Component) : (d.child x).name = x.val := by
  simp [name, child]

/-- A text that names a place below whatever it is joined to. -/
def Inward (s : String) : Prop :=
  s.toList.head? ≠ some '/' ∧ ∀ x ∈ components s, x.val ≠ ".."

instance (s : String) : Decidable (Inward s) := by unfold Inward; infer_instance

/-- Joining with a text and a slash-free continuation of it leads to an entry of a directory that
depends on the text only; the continuation is the end of the entry's name. -/
theorem exists_div_append (p : Path) (s : String) :
    ∃ (front : List Component) (last : String), '/' ∉ last.toList ∧
      (∀ y ∈ front, y ∈ components s) ∧
      ∀ (t : String) (z : Component), t ≠ "" → '/' ∉ t.toList → z.val = last ++ t →
        p / (s ++ t) = (if Root.of s = .none then ⟨p.root, p.parts ++ front⟩
          else ⟨Root.of s, front⟩ : Path).child z := by
  obtain ⟨front, last, hlast, hparts⟩ := exists_last_piece s
  refine ⟨front, last, hlast, fun y hy => ?_, fun t z hne ht hz => ?_⟩
  · have hwhole := hparts ""
    rw [String.append_empty] at hwhole
    rw [hwhole]
    exact List.mem_append_left _ hy
  · have hroot : Root.of (s ++ t) = Root.of s :=
      Root.of_append fun hhead => ht (List.mem_of_mem_head? hhead)
    change p.join (ofString (s ++ t)) = _
    simp only [join, ofString, hroot, hparts, ← hz, components_val]
    split
    · simp [child]
    · simp [child]

/-- An inward text with more text after it leads to an entry below the left side of a join. -/
theorem exists_div_inward (d : Path) {s t : String} (hs : Inward s) (ht : '/' ∉ t.toList)
    (hlen : 3 ≤ t.toList.length) :
    ∃ (ys : List Component) (z : Component),
      d / (s ++ t) = (⟨d.root, d.parts ++ ys⟩ : Path).child z ∧
      (∀ y ∈ ys, y.val ≠ "..") ∧ z.val ≠ ".." := by
  obtain ⟨front, last, hlast, hfront, hdiv⟩ := exists_div_append d s
  obtain ⟨z, hz, hdots⟩ := exists_component (s := last ++ t) (by simp [hlast, ht])
    (by rw [String.toList_append, List.length_append]; omega)
  have hne : t ≠ "" := by
    rintro rfl
    simp at hlen
  refine ⟨front, z, ?_, fun y hy => hs.2 y (hfront y hy), hdots⟩
  rw [hdiv t z hne ht hz, if_pos (Root.of_eq_none_iff.mpr hs.1)]

theorem withName_child (d : Path) (x y : Component) : (d.child x).withName y.val = d.child y := by
  simp [withName]

/-- Replacing the suffix changes the last name only. -/
theorem exists_withSuffix (rule : Pathlib) (d : Path) (x : Component) (suffix : String)
    (hslash : '/' ∉ suffix.toList) (hlen : 3 ≤ suffix.toList.length) :
    ∃ y : Component, y.val = rule.stem x.val ++ suffix ∧ y.val ≠ ".." ∧
      (d.child x).withSuffix rule suffix = d.child y := by
  have hstem : '/' ∉ (rule.stem x.val).toList := fun h => x.2.2.2 (Pathlib.mem_of_mem_stem h)
  obtain ⟨y, hy, hdots⟩ := exists_component (s := rule.stem x.val ++ suffix)
    (by simp [hstem, hslash]) (by rw [String.toList_append, List.length_append]; omega)
  refine ⟨y, hy, hdots, ?_⟩
  rw [withSuffix, name_child, ← hy, withName_child]

/-- The text of a path with something appended is the path with the last name extended. -/
theorem ofString_str_child (d : Path) {x y : Component} {t : String} (hy : y.val = x.val ++ t) :
    ofString ((d.child x).str ++ t) = d.child y := by
  have hparts : ∀ xs : List Component,
      components ("/".intercalate ((xs ++ [x]).map Subtype.val) ++ t) = xs ++ [y] := by
    intro xs
    induction xs with
    | nil => simp [String.intercalate_singleton, ← hy]
    | cons z zs ih =>
      have hne : (zs ++ [x]).map Subtype.val ≠ [] := by simp
      rw [List.cons_append, List.map_cons, String.intercalate_cons_of_ne_nil hne,
        String.append_assoc, components_slash, ih, components_val]
      rfl
  have hhead : ("/".intercalate ((d.parts ++ [x]).map Subtype.val) ++ t).toList.head? ≠
      some '/' := by
    cases d.parts with
    | nil => simpa [String.intercalate_singleton] using head_component_append x t
    | cons z zs =>
      have hne : (zs ++ [x]).map Subtype.val ≠ [] := by simp
      rw [List.cons_append, List.map_cons, String.intercalate_cons_of_ne_nil hne,
        String.append_assoc, String.append_assoc]
      exact head_component_append z _
  have hslash : ∀ s : String, components ("/" ++ s) = components s := by
    intro s
    have hempty := components_slash "" s
    rwa [String.empty_append, components_empty, List.nil_append] at hempty
  have hroot : ∀ s : String, components (d.root.text ++ s) = components s := by
    intro s
    cases d.root with
    | none => rw [Root.text, String.empty_append]
    | slash => exact hslash s
    | slashes =>
      have htwo : Root.text .slashes ++ s = "/" ++ ("/" ++ s) := by
        simp [← String.toList_inj, Root.text]
      rw [htwo, hslash, hslash]
  rw [str, if_neg (by simp [child]), ofString]
  change (⟨Root.of (d.root.text ++ "/".intercalate ((d.parts ++ [x]).map Subtype.val) ++ t),
    components (d.root.text ++ "/".intercalate ((d.parts ++ [x]).map Subtype.val) ++ t)⟩ : Path) = _
  rw [String.append_assoc, Root.of_append hhead, Root.of_text, hroot, hparts]
  rfl

@[simp] theorem ofString_str (p : Path) : ofString p.str = p := by
  obtain ⟨root, parts⟩ := p
  rcases List.eq_nil_or_concat parts with rfl | ⟨ys, x, rfl⟩
  · cases root <;> decide
  · have hchild := ofString_str_child ⟨root, ys⟩ (x := x) (y := x) (t := "") (by simp)
    rw [String.append_empty] at hchild
    simpa [child] using hchild

theorem locate_append (cwd : List Component) (d : Path) {ys : List Component}
    (hys : ∀ y ∈ ys, y.val ≠ "..") :
    (⟨d.root, d.parts ++ ys⟩ : Path).locate cwd = d.locate cwd ++ ys := by
  have hwalk : ∀ loc, ys.foldl walk loc = loc ++ ys := by
    induction ys with
    | nil => simp
    | cons y ys ih =>
      intro loc
      rw [List.foldl_cons, ih fun z hz => hys z (by simp [hz]), walk, if_neg (hys y (by simp))]
      simp
  simp only [locate, List.foldl_append, hwalk]

/-- Whatever the entry is called, its location is one step from the directory. -/
theorem locate_child_eq_walk (cwd : List Component) (d : Path) (x : Component) :
    (d.child x).locate cwd = walk (d.locate cwd) x := by
  simp only [locate, child, List.foldl_append, List.foldl_cons, List.foldl_nil]
  rfl

theorem locate_child (cwd : List Component) (d : Path) {x : Component} (hx : x.val ≠ "..") :
    (d.child x).locate cwd = d.locate cwd ++ [x] := by
  rw [locate_child_eq_walk, walk, if_neg hx]

end Path

end SrvBackup.Storage
