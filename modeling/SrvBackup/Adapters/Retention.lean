import SrvBackup.Adapters.Ssh
import SrvBackup.Storage.Rotation
import Mathlib.Data.List.Sort

/-!
# Retention

`applyRetention` keeps the newest files of a directory that match a pattern, newest meaning
greatest by name. `RetentionEnd` says how a run of it can end, in terms of `archives`, the set
of matching regular files, and `newest`.
-/
namespace SrvBackup.Adapters

open SrvBackup.Domain SrvBackup.Effects SrvBackup.Storage SrvBackup.Text

/-- Delete the paths in order; the first failure is a `RetentionError`. -/
def deleteAll : List Path → Prog (List Path)
  | [] => .ret []
  | path :: rest => do
    exceptOSError (unlink path) fun e =>
      .raise (.retention ("Cannot delete " ++ path.str ++ ": " ++ e.text))
    let deleted ← deleteAll rest
    pure (path :: deleted)

def applyRetention (directory : Path) (pattern : String) (keep : Int) : Prog (List Path) := do
  if !(← isDir directory) then pure []
  else do
    let found ← glob directory pattern
    let regular ← Program.keepIf isFile (found.map directory.child)
    let files := regular.insertionSort fun p q => p.name ≤ q.name
    if (files.length : Int) ≤ keep then pure []
    else deleteAll (files.take (files.length - keep).toNat)

/-- The function for any pattern, with `pathGlob` for `Path.glob`. -/
def applyRetentionGlob (pathGlob : Path → String → Prog (List Path)) (directory : Path)
    (pattern : String) (keep : Int) : Prog (List Path) := do
  if !(← isDir directory) then pure []
  else do
    let found ← pathGlob directory pattern
    let regular ← Program.keepIf isFile found
    let files := regular.insertionSort fun p q => p.name ≤ q.name
    if (files.length : Int) ≤ keep then pure []
    else deleteAll (files.take (files.length - keep).toNat)

/-- `Path.glob` for a pattern of one part without `**`. -/
def globChildren (directory : Path) (pattern : String) : Prog (List Path) := do
  let found ← glob directory pattern
  pure (found.map directory.child)

theorem applyRetention_eq (directory : Path) (pattern : String) (keep : Int) :
    applyRetention directory pattern keep =
      applyRetentionGlob globChildren directory pattern keep := rfl

theorem deleteAll_performs {P : Op → Prop} {paths : List Path}
    (hP : ∀ path ∈ paths, P (.unlink path)) : (deleteAll paths).Performs (E := Sys) P := by
  induction paths with
  | nil => trivial
  | cons path rest ih =>
    exact Program.Performs.bind (performs_exceptOSError ⟨hP path (by simp), performs_raiseOS⟩
      fun _ => trivial) fun _ => (ih fun p hp => hP p (by simp [hp])).bind fun _ => trivial

theorem applyRetention_performs {P : Op → Prop} {directory : Path} (pattern : String)
    (keep : Int) (hP : DirFootprint P directory) :
    (applyRetention directory pattern keep).Performs (E := Sys) P := by
  refine Program.Performs.bind (f := fun _ => _) ⟨hP.isDir, fun _ => trivial⟩ fun there => ?_
  split
  · trivial
  refine Program.Performs.bind (f := fun _ => _) ⟨hP.glob pattern, fun _ => trivial⟩
    fun found => ?_
  refine Program.Performs.bind_of_returns (Program.performs_keepIf fun p hp => ?_)
    (Program.keepIf_returns _ _) fun regular hregular => ?_
  · obtain ⟨x, -, rfl⟩ := List.mem_map.mp hp
    exact ⟨hP.isFile x, fun _ => trivial⟩
  dsimp only
  split
  · trivial
  refine deleteAll_performs fun p hp => ?_
  have hsorted := (List.mem_insertionSort _).mp (List.mem_of_mem_take hp)
  obtain ⟨x, -, rfl⟩ := List.mem_map.mp (hregular.subset hsorted)
  exact hP.unlink x

/-! ## How a run goes -/

/-- The names of the regular files in `d` that match `pattern`. -/
def archives (t : Files) (d : List Component) (pattern : String) : Finset Component :=
  ((t.children d).filter fun x =>
    (x.val ≠ ".." && Glob.fnmatch x.val pattern) && (t.content? (d ++ [x])).isSome).toFinset

theorem mem_archives {t : Files} {d : List Component} {pattern : String} {x : Component} :
    x ∈ archives t d pattern ↔
      x.val ≠ ".." ∧ Glob.fnmatch x.val pattern ∧ ∃ c, t.content? (d ++ [x]) = some c := by
  simp only [archives, List.mem_toFinset, List.mem_filter, Bool.and_eq_true, decide_eq_true_eq,
    Option.isSome_iff_exists, FileTree.mem_children]
  constructor
  · rintro ⟨-, ⟨hdot, hmatch⟩, hc⟩
    exact ⟨hdot, hmatch, hc⟩
  · rintro ⟨hdot, hmatch, c, hc⟩
    exact ⟨⟨_, FileTree.content?_eq_some.mp hc⟩, ⟨hdot, hmatch⟩, c, hc⟩

/-- `u` holds the files of `t` but those at `gone`. -/
def FilesWithout (t : Files) (gone : List (List Component)) (u : Files) : Prop :=
  ∀ q, u.content? q = if q ∈ gone then none else t.content? q

/-- `u` is `t` without what is at `gone`. -/
def TreeWithout (t : Files) (gone : List (List Component)) (u : Files) : Prop :=
  ∀ q, u.get? q = if q ∈ gone then none else t.get? q

namespace TreeWithout

variable {t u : Files} {gone gone' : List (List Component)}

theorem files (h : TreeWithout t gone u) : FilesWithout t gone u := by
  intro q
  rw [FileTree.content?, h q]
  split <;> rfl

theorem congr (h : TreeWithout t gone u) (hmem : ∀ q, q ∈ gone ↔ q ∈ gone') :
    TreeWithout t gone' u := by
  intro q
  rw [h q]
  simp only [hmem]

end TreeWithout

theorem keepIf_isFile_run (env : Env) (ps : List Path) (w : World) :
    ∃ u, (Program.keepIf isFile ps).run env.handler w =
        (.ok (ps.filter fun p => (w.files.content? (p.locate env.cwd)).isSome), u) ∧
      u.files = w.files := by
  induction ps generalizing w with
  | nil => exact ⟨w, rfl, rfl⟩
  | cons p ps ih =>
    obtain ⟨u, hu, hfiles⟩ := ih (w.record (.isFile p) (env.act w.log.length (.isFile p) w.files))
    refine ⟨u, ?_, hfiles⟩
    simp only [Program.keepIf, Program.run_bind, run_isFile, hu, Program.run_ret]
    simp only [World.record, Env.act, List.filter_cons]

/-- Deleting files that were there before `gone` were deleted: all of them go, or an unlink fails,
which the environment refuses or whose file is gone already, and exactly the ones before it are
gone. -/
inductive DeleteRun (env : Env) (t : Files) (gone ps : List Path) :
    Except Error (List Path) × World → Prop where
  | all (u : World) : (∀ p ∈ ps, env.fault (.unlink p) = none) →
      TreeWithout t ((gone ++ ps).map (·.locate env.cwd)) u.files →
      DeleteRun env t gone ps (.ok ps, u)
  | stopped (before after : List Path) (p : Path) (e : OSError) (u : World) :
      ps = before ++ p :: after → (∀ q ∈ before, env.fault (.unlink q) = none) →
      (env.fault (.unlink p) = some e ∨
        p.locate env.cwd ∈ (gone ++ before).map (·.locate env.cwd)) →
      TreeWithout t ((gone ++ before).map (·.locate env.cwd)) u.files →
      DeleteRun env t gone ps
        (.error (.retention ("Cannot delete " ++ p.str ++ ": " ++ e.text)), u)

theorem unlinked_of_none {t : Files} {p : List Component} (h : t.content? p = none) :
    Env.unlinked t p = none := by
  unfold Env.unlinked
  split
  case h_1 c hc =>
    rw [FileTree.content?_eq_some.mpr hc] at h
    contradiction
  case h_2 => rfl

theorem deleteAll_run (env : Env) (t : Files) (gone ps : List Path) (w : World)
    (hthere : ∀ p ∈ ps, ∃ c, t.content? (p.locate env.cwd) = some c)
    (hgone : TreeWithout t (gone.map (·.locate env.cwd)) w.files) :
    DeleteRun env t gone ps ((deleteAll ps).run env.handler w) := by
  induction ps generalizing gone w with
  | nil => exact .all w (by simp) (by simpa using hgone)
  | cons p ps ih =>
    obtain ⟨c, hc⟩ := hthere p (by simp)
    simp only [deleteAll, Program.bind_eq, Program.run_bind, run_exceptOSError, run_unlink,
      Env.act, World.record]
    cases hf : env.fault (.unlink p) with
    | some e =>
      exact .stopped [] ps p e _ rfl (by simp) (.inl hf) (by simpa [Env.update] using hgone)
    | none =>
      by_cases hp : p.locate env.cwd ∈ gone.map (·.locate env.cwd)
      · have hnone : w.files.content? (p.locate env.cwd) = none := by
          rw [hgone.files _, if_pos hp]
        rw [unlinked_of_none hnone]
        exact .stopped [] ps p _ _ rfl (by simp) (.inr (by simpa using hp))
          (by simpa [Env.update] using hgone)
      · have hcontent : w.files.content? (p.locate env.cwd) = some c := by
          rw [hgone.files _, if_neg hp, hc]
        rw [unlinked_of_content hcontent]
        simp only [Env.update, Except.mapError]
        generalize hv : World.mk _ _ = v
        have hafter : TreeWithout t ((gone ++ [p]).map (·.locate env.cwd)) v.files := by
          intro q
          have hremoved := FileTree.get?_remove w.files (p.locate env.cwd) q
          rw [← hv, hremoved, hgone q]
          by_cases hq : q = p.locate env.cwd <;> simp [hq]
        have hrun := ih (gone ++ [p]) v (fun r hr => hthere r (by simp [hr])) hafter
        generalize (deleteAll ps).run env.handler v = r at hrun ⊢
        cases hrun with
        | all u hok hrest =>
          refine .all u (List.forall_mem_cons.mpr ⟨hf, hok⟩) ?_
          rwa [List.append_assoc, List.singleton_append] at hrest
        | stopped before after r e u hps hok hr hrest =>
          rw [List.append_assoc, List.singleton_append] at hr hrest
          exact .stopped (p :: before) after r e u (by simp [hps])
            (List.forall_mem_cons.mpr ⟨hf, hok⟩) hr hrest

/-- Deleting files that are there: all of them go, or an unlink that the environment refuses
ends the loop and exactly the ones before it are gone. -/
inductive DeleteEnd (env : Env) (ps : List Path) (w : World) :
    Except Error (List Path) × World → Prop where
  | all (u : World) : (∀ p ∈ ps, env.fault (.unlink p) = none) →
      FilesWithout w.files (ps.map (·.locate env.cwd)) u.files → DeleteEnd env ps w (.ok ps, u)
  | stopped (before after : List Path) (p : Path) (e : OSError) (u : World) :
      ps = before ++ p :: after → env.fault (.unlink p) = some e →
      FilesWithout w.files (before.map (·.locate env.cwd)) u.files →
      DeleteEnd env ps w
        (.error (.retention ("Cannot delete " ++ p.str ++ ": " ++ e.text)), u)

theorem deleteAll_end (env : Env) (ps : List Path) (w : World)
    (hthere : ∀ p ∈ ps, ∃ c, w.files.content? (p.locate env.cwd) = some c)
    (hdistinct : (ps.map (·.locate env.cwd)).Nodup) :
    DeleteEnd env ps w ((deleteAll ps).run env.handler w) := by
  have hrun := deleteAll_run env w.files [] ps w hthere fun q => by simp
  generalize (deleteAll ps).run env.handler w = r at hrun ⊢
  cases hrun with
  | all u hok hgone => exact .all u hok hgone.files
  | stopped before after p e u hps hok hfail hgone =>
    rcases hfail with hfail | hfail
    · exact .stopped before after p e u hps hfail hgone.files
    · subst hps
      rw [List.map_append, List.map_cons] at hdistinct
      exact absurd hfail fun hmem =>
        List.disjoint_of_nodup_append hdistinct hmem List.mem_cons_self

/-- How a run of `applyRetention` ends, with `kept` the `keep` newest of the matching files: a
missing directory is left alone, otherwise all surplus files go, in ascending order, or the
first one that cannot be deleted ends the run. -/
inductive RetentionEnd (env : Env) (directory : Path) (pattern : String) (keep : Int) (w : World) :
    Except Error (List Path) × World → Prop where
  | absent (u : World) : w.files.isDir (directory.locate env.cwd) = false →
      SameFiles w.files u.files → RetentionEnd env directory pattern keep w (.ok [], u)
  | pruned (surplus : List Component) (u : World) :
      surplus.Pairwise (· < ·) →
      (∀ x, x ∈ surplus ↔ x ∈ archives w.files (directory.locate env.cwd) pattern ∧
        x ∉ newest keep.toNat (archives w.files (directory.locate env.cwd) pattern)) →
      (∀ x ∈ surplus, env.fault (.unlink (directory.child x)) = none) →
      FilesWithout w.files (surplus.map fun x => directory.locate env.cwd ++ [x]) u.files →
      RetentionEnd env directory pattern keep w (.ok (surplus.map directory.child), u)
  | stopped (before after : List Component) (x : Component) (e : OSError) (u : World) :
      (before ++ x :: after).Pairwise (· < ·) →
      (∀ y, y ∈ before ++ x :: after ↔
        y ∈ archives w.files (directory.locate env.cwd) pattern ∧
        y ∉ newest keep.toNat (archives w.files (directory.locate env.cwd) pattern)) →
      env.fault (.unlink (directory.child x)) = some e →
      FilesWithout w.files (before.map fun y => directory.locate env.cwd ++ [y]) u.files →
      RetentionEnd env directory pattern keep w
        (.error (.retention ("Cannot delete " ++ (directory.child x).str ++ ": " ++ e.text)), u)

/-- The matching files in ascending order, as the program sorts them. -/
def sortedArchives (t : Files) (d : List Component) (pattern : String) : List Component :=
  ((t.children d).filter fun x => (x.val ≠ ".." && Glob.fnmatch x.val pattern) &&
    (t.content? (d ++ [x])).isSome).insertionSort (· ≤ ·)

theorem mem_sortedArchives {t : Files} {d : List Component} {pattern : String} {x : Component} :
    x ∈ archives t d pattern ↔ x ∈ sortedArchives t d pattern := by
  simp [sortedArchives, archives]

theorem sortedArchives_pairwise (t : Files) (d : List Component) (pattern : String) :
    (sortedArchives t d pattern).Pairwise (· < ·) := by
  have hnodup : (sortedArchives t d pattern).Nodup :=
    (List.perm_insertionSort _ _).nodup_iff.mpr ((FileTree.nodup_children t d).filter _)
  exact (List.pairwise_insertionSort (· ≤ ·) _).imp₂ (fun _ _ hle hne => lt_of_le_of_ne hle hne)
    hnodup

/-- The files the program sorts are the matching regular files. -/
theorem sorted_paths_eq (env : Env) (t : Files) (directory : Path) (pattern : String) :
    ((((t.children (directory.locate env.cwd)).filter fun x =>
        x.val ≠ ".." && Glob.fnmatch x.val pattern).map directory.child).filter fun p =>
          (t.content? (p.locate env.cwd)).isSome).insertionSort (fun p q => p.name ≤ q.name) =
      (sortedArchives t (directory.locate env.cwd) pattern).map directory.child := by
  rw [sortedArchives, List.map_insertionSort (r := fun x y : Component => x ≤ y)
    (s := fun p q : Path => p.name ≤ q.name) _ _ (by intro x _ y _; simp), List.filter_map]
  congr 2
  rw [List.filter_filter]
  refine List.filter_congr fun x _ => ?_
  by_cases hdot : x.val = ".."
  · simp [hdot]
  · simp [hdot, Path.locate_child env.cwd directory hdot, Bool.and_comm]

theorem locate_children (cwd : List Component) (d : Path) {xs : List Component}
    (hxs : ∀ x ∈ xs, x.val ≠ "..") :
    (xs.map d.child).map (·.locate cwd) = xs.map fun x => d.locate cwd ++ [x] := by
  rw [List.map_map]
  exact List.map_congr_left fun x hx => Path.locate_child cwd d (hxs x hx)

/-- The deletion loop of a retention run. -/
theorem deleteAll_surplus_end (env : Env) (directory : Path) (pattern : String) (keep : Int)
    {w v : World} {surplus : List Component} (hfiles : v.files = w.files)
    (hascending : surplus.Pairwise (· < ·))
    (hsurplus : ∀ x, x ∈ surplus ↔ x ∈ archives w.files (directory.locate env.cwd) pattern ∧
      x ∉ newest keep.toNat (archives w.files (directory.locate env.cwd) pattern)) :
    RetentionEnd env directory pattern keep w
      ((deleteAll (surplus.map directory.child)).run env.handler v) := by
  have hdots : ∀ x ∈ surplus, x.val ≠ ".." := fun x hx =>
    (mem_archives.mp ((hsurplus x).mp hx).1).1
  have hthere : ∀ p ∈ surplus.map directory.child,
      ∃ c, v.files.content? (p.locate env.cwd) = some c := by
    intro p hp
    obtain ⟨x, hx, rfl⟩ := List.mem_map.mp hp
    obtain ⟨hdot, -, hc⟩ := mem_archives.mp ((hsurplus x).mp hx).1
    rwa [Path.locate_child env.cwd directory hdot, hfiles]
  have hdistinct : ((surplus.map directory.child).map (·.locate env.cwd)).Nodup := by
    rw [locate_children env.cwd directory hdots]
    exact List.Nodup.map (fun x y h => by simpa using h) (hascending.imp fun h => h.ne)
  have hend := deleteAll_end env _ v hthere hdistinct
  generalize (deleteAll (surplus.map directory.child)).run env.handler v = r at hend ⊢
  cases hend with
  | all u hok hgone =>
    refine .pruned surplus u hascending hsurplus ?_ ?_
    · exact fun x hx => hok _ (List.mem_map_of_mem hx)
    · rwa [locate_children env.cwd directory hdots, hfiles] at hgone
  | stopped before after p e u hps hp hgone =>
    obtain ⟨xs, ys, rfl, rfl, hys⟩ := List.map_eq_append_iff.mp hps
    obtain ⟨x, zs, rfl, rfl, rfl⟩ := List.map_eq_cons_iff.mp hys
    refine .stopped xs zs x e u hascending hsurplus hp ?_
    rwa [locate_children env.cwd directory (fun y hy => hdots y (by simp [hy])), hfiles] at hgone

theorem applyRetention_end (env : Env) (directory : Path) (pattern : String) (keep : Int)
    (w : World) :
    RetentionEnd env directory pattern keep w
      ((applyRetention directory pattern keep).run env.handler w) := by
  simp only [applyRetention, Program.bind_eq, Program.run_bind, run_isDir]
  cases hdir : w.files.isDir (directory.locate env.cwd) with
  | false => exact .absent _ hdir fun q => rfl
  | true =>
    simp only [Bool.not_true, Bool.false_eq_true, if_false, Program.run_bind, run_glob, Env.act,
      World.record]
    generalize hv : World.mk _ _ = v
    have hvfiles : v.files = w.files := by rw [← hv]
    obtain ⟨u, hu, hfiles⟩ := keepIf_isFile_run env
      (((w.files.children (directory.locate env.cwd)).filter fun x =>
        x.val ≠ ".." && Glob.fnmatch x.val pattern).map directory.child) v
    rw [hvfiles] at hu hfiles
    have hsorted := sorted_paths_eq env w.files directory pattern
    simp only [hu, hsorted, List.length_map]
    generalize hl : sortedArchives w.files (directory.locate env.cwd) pattern = l
    have hascending := sortedArchives_pairwise w.files (directory.locate env.cwd) pattern
    have hsurplus := mem_take_sorted_iff hascending (fun x => mem_sortedArchives) keep.toNat
    rw [hl] at hascending hsurplus
    by_cases hfew : (l.length : Int) ≤ keep
    · have hnone : l.take (l.length - keep.toNat) = [] := by
        rw [show l.length - keep.toNat = 0 by omega, List.take_zero]
      rw [hnone] at hsurplus
      simp only [hfew, if_true]
      exact .pruned [] u .nil hsurplus (by simp) fun q => by simp [hfiles]
    · have htake : (l.map directory.child).take ((l.length : Int) - keep).toNat =
          (l.take (l.length - keep.toNat)).map directory.child := by
        rw [← List.map_take]
        congr 1
        by_cases hneg : 0 ≤ keep
        · congr 1
          omega
        · rw [List.take_of_length_le (by omega), List.take_of_length_le (by omega)]
      simp only [hfew, if_false, htake]
      exact deleteAll_surplus_end env directory pattern keep hfiles
        (hascending.sublist (List.take_sublist _ l)) hsurplus

/-- Retention never raises anything but a `RetentionError`. -/
theorem RetentionEnd.result {env : Env} {directory : Path} {pattern : String} {keep : Int}
    {w : World} {r : Except Error (List Path) × World}
    (h : RetentionEnd env directory pattern keep w r) :
    (∃ deleted, r.1 = .ok deleted) ∨ ∃ text, r.1 = .error (.retention text) := by
  cases h with
  | absent u _ _ => exact .inl ⟨_, rfl⟩
  | pruned surplus u _ _ _ _ => exact .inl ⟨_, rfl⟩
  | stopped before after x e u _ _ _ _ => exact .inr ⟨_, rfl⟩

/-- Where every file can be deleted, retention returns. -/
theorem RetentionEnd.returns {env : Env} {directory : Path} {pattern : String} {keep : Int}
    {w : World} {r : Except Error (List Path) × World}
    (h : RetentionEnd env directory pattern keep w r) (hfault : ∀ o, env.fault o = none) :
    ∃ deleted, r.1 = .ok deleted := by
  cases h with
  | absent u _ _ => exact ⟨_, rfl⟩
  | pruned surplus u _ _ _ _ => exact ⟨_, rfl⟩
  | stopped before after x e u _ _ hfail _ =>
    rw [hfault] at hfail
    cases hfail

theorem applyRetention_returns {env : Env} (hfault : ∀ o, env.fault o = none) (directory : Path)
    (pattern : String) (keep : Int) (w : World) :
    ∃ deleted u, (applyRetention directory pattern keep).run env.handler w = (.ok deleted, u) ∧
      RetentionEnd env directory pattern keep w (.ok deleted, u) := by
  have hend := applyRetention_end env directory pattern keep w
  obtain ⟨deleted, hok⟩ := hend.returns hfault
  obtain ⟨u, hrun⟩ : ∃ u, (applyRetention directory pattern keep).run env.handler w =
      (.ok deleted, u) := ⟨_, Prod.ext hok rfl⟩
  exact ⟨deleted, u, hrun, hrun ▸ hend⟩

/-! ## Retention as rotation -/

/-- The names of the matching files, as text. -/
def archiveNames (t : Files) (d : List Component) (pattern : String) : Finset String :=
  (archives t d pattern).image Subtype.val

theorem mem_archiveNames_val {t : Files} {d : List Component} {pattern : String} {x : Component} :
    x.val ∈ archiveNames t d pattern ↔ x ∈ archives t d pattern := by
  simp [archiveNames, Subtype.val_inj]

/-- The archives of a directory are decided by its matching files. -/
theorem archiveNames_congr {t u : Files} {d : List Component} {pattern : String}
    (h : ∀ x : Component, Glob.fnmatch x.val pattern →
      u.content? (d ++ [x]) = t.content? (d ++ [x])) :
    archiveNames u d pattern = archiveNames t d pattern := by
  refine congrArg (Finset.image Subtype.val) (Finset.ext fun x => ?_)
  simp only [mem_archives]
  constructor <;> rintro ⟨hdot, hmatch, c, hc⟩
  · exact ⟨hdot, hmatch, c, (h x hmatch).symm.trans hc⟩
  · exact ⟨hdot, hmatch, c, (h x hmatch).trans hc⟩

/-- A new matching file is a new archive. -/
theorem archiveNames_fileAt {t u : Files} {d : List Component} {pattern : String} {x : Component}
    {c : Content} (h : FileAt t (d ++ [x]) (some c) u) (hdot : x.val ≠ "..")
    (hmatch : Glob.fnmatch x.val pattern) :
    archiveNames u d pattern = insert x.val (archiveNames t d pattern) := by
  have hmem : ∀ y, y ∈ archives u d pattern ↔ y = x ∨ y ∈ archives t d pattern := by
    intro y
    simp only [mem_archives, h (d ++ [y]), List.append_cancel_left_eq, List.cons.injEq, and_true]
    by_cases hy : y = x
    · subst hy
      simp [hdot, hmatch]
    · simp [hy]
  ext s
  simp only [archiveNames, Finset.mem_image, Finset.mem_insert, hmem]
  aesop

theorem FilesWithout.content?_child {t u : Files} {d : List Component} {surplus : List Component}
    (h : FilesWithout t (surplus.map fun x => d ++ [x]) u) (x : Component) :
    u.content? (d ++ [x]) = if x ∈ surplus then none else t.content? (d ++ [x]) := by
  simp [h (d ++ [x])]

/-- A retention run that returns keeps the newest archives. -/
theorem RetentionEnd.archiveNames_eq {env : Env} {directory : Path} {pattern : String}
    {keep : Int} {w u : World} {deleted : List Path}
    (h : RetentionEnd env directory pattern keep w (.ok deleted, u))
    (hdir : w.files.isDir (directory.locate env.cwd)) :
    archiveNames u.files (directory.locate env.cwd) pattern =
      newest keep.toNat (archiveNames w.files (directory.locate env.cwd) pattern) := by
  cases h with
  | absent u hnone _ =>
    rw [hnone] at hdir
    cases hdir
  | pruned surplus u _ hsurplus _ hgone =>
    rw [archiveNames, archiveNames, ← newest_image (Subtype.strictMono_coe _)]
    congr 1
    ext x
    have hkept : x ∈ archives u.files (directory.locate env.cwd) pattern ↔
        x ∈ archives w.files (directory.locate env.cwd) pattern ∧ x ∉ surplus := by
      simp only [mem_archives, hgone.content?_child]
      by_cases hx : x ∈ surplus <;> simp [hx]
    have hsub := newest_subset keep.toNat
      (archives w.files (directory.locate env.cwd) pattern) (x := x)
    rw [hkept, hsurplus]
    tauto

/-- Retention touches matching files of its directory only. -/
theorem RetentionEnd.content?_eq {env : Env} {directory : Path} {pattern : String}
    {keep : Int} {w : World} {r : Except Error (List Path) × World}
    (h : RetentionEnd env directory pattern keep w r) {x : Component}
    (hx : ¬ Glob.fnmatch x.val pattern) :
    r.2.files.content? (directory.locate env.cwd ++ [x]) =
      w.files.content? (directory.locate env.cwd ++ [x]) := by
  have hno : x ∉ archives w.files (directory.locate env.cwd) pattern :=
    fun h => hx (mem_archives.mp h).2.1
  cases h with
  | absent u _ hsame => exact hsame _
  | pruned surplus u _ hsurplus _ hgone =>
    rw [hgone.content?_child, if_neg fun h => hno ((hsurplus x).mp h).1]
  | stopped before after y e u _ hsurplus _ hgone =>
    rw [hgone.content?_child, if_neg fun h => hno ((hsurplus x).mp (by simp [h])).1]

end SrvBackup.Adapters
