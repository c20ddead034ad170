import SrvBackup.Adapters.System

/-!
# Operations confined to a directory

An operation is confined to `dir` when everything it looks at and changes lies below `dir`,
except that making directories may make the ones above. A part of the tree that covers `dir`
decides what a confined operation does (`act_congr`); a part that misses `dir` does not show it
(`act_restrict_of_misses`).
-/
namespace SrvBackup.Adapters

open SrvBackup.Domain SrvBackup.Effects SrvBackup.Storage

/-- The location below which an operation reads and writes. Opening a file for writing looks at
its directory. -/
def Op.reach (cwd : List Component) : Op → Option (List Component)
  | .now | .monotonic | .run _ => none
  | .popen _ path | .openWrite path | .writeText path _ => some (path.locate cwd).dropLast
  | .mkdir path | .stat path | .unlink path | .isDir path | .isFile path | .glob path _ =>
    some (path.locate cwd)

def Confined (cwd dir : List Component) (o : Op) : Prop := ∀ loc ∈ o.reach cwd, dir <+: loc

/-- `keep` chooses everything below `dir` and every file above it. -/
structure Covers (keep : List Component → Entry Content → Bool) (dir : List Component) : Prop where
  below : ∀ q, dir <+: q → ∀ e, keep q e
  above : ∀ q, q <+: dir → ∀ c, keep q (.file c)

/-- `keep` chooses nothing below `dir` and no directory above it. -/
structure Misses (keep : List Component → Entry Content → Bool) (dir : List Component) : Prop where
  below : ∀ q, dir <+: q → ∀ e, ¬ keep q e
  above : ∀ q, q <+: dir → ¬ keep q .dir

variable {cwd dir : List Component} {keep : List Component → Entry Content → Bool}

theorem prefix_of_dropLast {loc : List Component} (h : dir <+: loc.dropLast) : dir <+: loc :=
  h.trans (List.dropLast_prefix loc)

/-- The locations that making a directory goes through lie above or below. -/
theorem above_or_below {loc q : List Component} (h : dir <+: loc) (hq : q ∈ FileTree.lineage loc) :
    q <+: dir ∨ dir <+: q :=
  List.prefix_or_prefix_of_prefix (FileTree.mem_lineage.mp hq).2 h

namespace Env

theorem update_congr (fault : Option OSError) (refusal : OSError) {new new' : Option Files}
    {old old' : Files}
    (hnew : new.map (FileTree.restrict keep) = new'.map (FileTree.restrict keep))
    (hold : old.restrict keep = old'.restrict keep) :
    (update fault refusal new old).1 = (update fault refusal new' old').1 ∧
      (update fault refusal new old).2.restrict keep =
        (update fault refusal new' old').2.restrict keep := by
  cases fault with
  | some e => exact ⟨rfl, hold⟩
  | none =>
    cases new <;> cases new' <;> simp_all [update]

theorem update_restrict (fault : Option OSError) (refusal : OSError) {new : Option Files}
    {old : Files} (hnew : ∀ t, new = some t → t.restrict keep = old.restrict keep) :
    (update fault refusal new old).2.restrict keep = old.restrict keep := by
  obtain ⟨e, -, he⟩ | ⟨t, -, ht, hok⟩ := update_cases fault refusal new old
  · rw [he]
  · rw [hok, hnew t ht]

theorem unlinked_congr {t u : Files} (h : t.restrict keep = u.restrict keep) {p : List Component}
    (hp : ∀ e, keep p e) :
    (unlinked t p).map (FileTree.restrict keep) = (unlinked u p).map (FileTree.restrict keep) := by
  rw [unlinked, unlinked, FileTree.get?_eq_of_restrict_eq h hp]
  split
  · simp only [Option.map_some, FileTree.restrict_remove, h]
  · rfl

/-- What a confined operation answers and leaves depends on a covering part only. -/
theorem act_congr (env : Env) (n : Nat) {o : Op} {t u : Files} (hkeep : Covers keep dir)
    (ho : Confined env.cwd dir o) (h : t.restrict keep = u.restrict keep) :
    (env.act n o t).1 = (env.act n o u).1 ∧
      (env.act n o t).2.restrict keep = (env.act n o u).2.restrict keep := by
  cases o with
  | now | monotonic | run cmd => exact ⟨rfl, h⟩
  | popen cmd path =>
    have hbelow := prefix_of_dropLast (ho _ rfl)
    simp only [act]
    cases env.pipe cmd with
    | error e => exact ⟨rfl, h⟩
    | ok p => exact ⟨rfl, FileTree.restrict_set_congr h (hkeep.below _ hbelow _)⟩
  | mkdir path =>
    refine update_congr _ _ (FileTree.mkdirs_congr h fun q hq c => ?_) h
    rcases above_or_below (ho _ rfl) hq with hq | hq
    · exact hkeep.above q hq c
    · exact hkeep.below q hq _
  | openWrite path =>
    have hparent := ho _ rfl
    exact update_congr _ _ (FileTree.create_congr h []
      (hkeep.below _ (prefix_of_dropLast hparent)) (hkeep.below _ hparent)) h
  | writeText path text =>
    have hparent := ho _ rfl
    exact update_congr _ _ (FileTree.create_congr h (encodeUtf8 text)
      (hkeep.below _ (prefix_of_dropLast hparent)) (hkeep.below _ hparent)) h
  | stat path =>
    have hget := FileTree.get?_eq_of_restrict_eq h (hkeep.below _ (ho _ rfl))
    refine ⟨?_, by simpa only [act_stat_files] using h⟩
    simp only [act, hget]
    split <;> rfl
  | unlink path =>
    have hbelow := hkeep.below _ (ho _ rfl)
    simp only [act, FileTree.get?_eq_of_restrict_eq h hbelow]
    exact update_congr _ _ (unlinked_congr h hbelow) h
  | isDir path => exact ⟨FileTree.isDir_eq_of_restrict_eq h (hkeep.below _ (ho _ rfl)), h⟩
  | isFile path =>
    have hfile := FileTree.content?_eq_of_restrict_eq h fun c => hkeep.below _ (ho _ rfl) (.file c)
    exact ⟨congrArg Option.isSome hfile, h⟩
  | glob path pattern =>
    have hlist := FileTree.children_eq_of_restrict_eq h fun x e =>
      hkeep.below _ ((ho _ rfl).trans (List.prefix_append _ [x])) e
    exact ⟨congrArg (List.filter _) hlist, h⟩

/-- A part that misses the directory does not show what a confined operation does. -/
theorem act_restrict_of_misses (env : Env) (n : Nat) {o : Op} (t : Files)
    (hkeep : Misses keep dir) (ho : Confined env.cwd dir o) :
    (env.act n o t).2.restrict keep = t.restrict keep := by
  have hset : ∀ {loc : List Component} (e : Entry Content), dir <+: loc →
      (t.set loc e).restrict keep = t.restrict keep := fun e hloc =>
    FileTree.restrict_set_of_not t (hkeep.below _ hloc e) fun e' _ => hkeep.below _ hloc e'
  cases o with
  | now | monotonic | run cmd | isDir path | isFile path | glob path pattern => rfl
  | popen cmd path =>
    simp only [act]
    cases env.pipe cmd with
    | error e => rfl
    | ok p => exact hset _ (prefix_of_dropLast (ho _ rfl))
  | mkdir path =>
    refine update_restrict _ _ fun u hu => FileTree.restrict_mkdirs_of_not (fun q hq => ?_) hu
    rcases above_or_below (ho _ rfl) hq with hq | hq
    · exact hkeep.above q hq
    · exact hkeep.below q hq _
  | openWrite path | writeText path text =>
    refine update_restrict _ _ fun u hu => ?_
    obtain ⟨-, rfl⟩ := FileTree.create_eq_some hu
    exact hset _ (prefix_of_dropLast (ho _ rfl))
  | stat path => rw [act_stat_files]
  | unlink path =>
    refine update_restrict _ _ fun u hu => ?_
    unfold unlinked at hu
    split at hu
    · cases hu
      exact FileTree.restrict_remove_of_not t fun e' _ => hkeep.below _ (ho _ rfl) e'
    · cases hu

end Env

/-! ## Footprints -/

theorem fileFootprint_confined {d : Path} {x : Component} (hx : x.val ≠ "..")
    (h : dir <+: d.locate cwd) : FileFootprint (Confined cwd dir) (d.child x) := by
  have hchild : ((d.child x).locate cwd).dropLast = d.locate cwd := by
    rw [Path.locate_child cwd d hx, List.dropLast_concat]
  have hbelow : dir <+: (d.child x).locate cwd := by
    rw [Path.locate_child cwd d hx]
    exact h.trans (List.prefix_append _ _)
  constructor
  case mkdir =>
    rintro loc ⟨⟩
    rwa [Path.parent_child]
  case unlink | stat =>
    rintro loc ⟨⟩
    exact hbelow
  case openWrite =>
    rintro loc ⟨⟩
    rwa [hchild]
  case popen | writeText =>
    rintro _ loc ⟨⟩
    rwa [hchild]

/-- An entry of a directory may be `..`, so the directory has to lie properly below. -/
theorem dirFootprint_confined {d : Path} (h : dir <+: (d.locate cwd).dropLast) :
    DirFootprint (Confined cwd dir) d := by
  have hchild : ∀ x, dir <+: (d.child x).locate cwd := by
    intro x
    rw [Path.locate_child_eq_walk, Path.walk]
    split
    · exact h
    · exact (prefix_of_dropLast h).trans (List.prefix_append _ _)
  constructor
  case mkdir | isDir =>
    rintro loc ⟨⟩
    exact prefix_of_dropLast h
  case glob =>
    rintro _ loc ⟨⟩
    exact prefix_of_dropLast h
  case isFile | unlink =>
    rintro x loc ⟨⟩
    exact hchild x

end SrvBackup.Adapters
