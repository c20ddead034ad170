import SrvBackup.Specification.SnapshotHistory

/-!
# Disk use of snapshot archives

Retention looks at the entries of the snapshots directory, an archive is written wherever its name
leads. `archives_bounded_iff` is about runs with one target: the archives at any depth below the
directory stay within the retention count exactly when there are no more runs than that, or
retention sees what is written.
-/
namespace SrvBackup.Specification

open SrvBackup.Domain SrvBackup.Effects SrvBackup.Storage SrvBackup.Text SrvBackup.Adapters

/-- The locations of the files named `*.zfs.gz`, at any depth below `d`. -/
def archivesBelow (t : Files) (d : List Component) : Finset (List Component) :=
  (t.keys.filter fun p => (d <+: p.dropLast && p.getLast?.any (Glob.fnmatch ·.val "*.zfs.gz")) &&
    (t.content? p).isSome).toFinset

theorem fnmatch_zfs_gz_iff {name : String} :
    Glob.fnmatch name "*.zfs.gz" ↔ ∃ front, name.toList = front ++ ".zfs.gz".toList := by
  have htokens : Glob.tokens "*.zfs.gz" = .star :: Glob.literals ".zfs.gz" := by decide
  rw [Glob.fnmatch, htokens, Glob.accepts_star]
  constructor
  · rintro ⟨front, rest, hname, hrest⟩
    exact ⟨front, by rw [hname, (Glob.accepts_literals _ _).mp hrest]⟩
  · rintro ⟨front, hname⟩
    exact ⟨front, _, hname, (Glob.accepts_literals _ _).mpr rfl⟩

theorem mem_archivesBelow {t : Files} {d q : List Component} {x : Component} :
    q ++ [x] ∈ archivesBelow t d ↔
      d <+: q ∧ Glob.fnmatch x.val "*.zfs.gz" ∧ ∃ c, t.content? (q ++ [x]) = some c := by
  simp only [archivesBelow, List.mem_toFinset, List.mem_filter, Bool.and_eq_true,
    decide_eq_true_eq, List.dropLast_concat, List.getLast?_concat, Option.any_some,
    Option.isSome_iff_exists]
  constructor
  · rintro ⟨-, ⟨hd, hx⟩, hc⟩
    exact ⟨hd, hx, hc⟩
  · rintro ⟨hd, hx, c, hc⟩
    refine ⟨?_, ⟨hd, hx⟩, c, hc⟩
    rw [← AList.mem_keys, ← AList.lookup_isSome]
    exact Option.isSome_iff_exists.mpr ⟨_, FileTree.content?_eq_some.mp hc⟩

theorem archivesBelow_fileAt {t u : Files} {d q : List Component} {x : Component} {c : Content}
    (h : FileAt t (q ++ [x]) (some c) u) (hx : Glob.fnmatch x.val "*.zfs.gz") :
    archivesBelow u d =
      if d <+: q then insert (q ++ [x]) (archivesBelow t d) else archivesBelow t d := by
  have hmem : ∀ p y, p ++ [y] ∈ archivesBelow u d ↔
      (p ++ [y] = q ++ [x] ∧ d <+: q) ∨ p ++ [y] ∈ archivesBelow t d := by
    intro p y
    simp only [mem_archivesBelow, h (p ++ [y])]
    by_cases hp : p ++ [y] = q ++ [x]
    · obtain ⟨rfl, rfl⟩ := List.append_singleton_inj.mp hp
      simp [hx]
      tauto
    · simp [hp]
  have hnil : ∀ v : Files, [] ∉ archivesBelow v d := by simp [archivesBelow]
  ext p
  rcases List.eq_nil_or_concat p with rfl | ⟨p, y, rfl⟩
  · split <;> simp [hnil]
  · rw [List.concat_eq_append, hmem]
    split
    · next hd => simp [hd]
    · next hd => simp [hd]

theorem archivesBelow_filesWithout {t u : Files} {gone : List (List Component)}
    (d : List Component) (h : FilesWithout t gone u) :
    archivesBelow u d = (archivesBelow t d).filter (· ∉ gone) := by
  ext p
  rcases List.eq_nil_or_concat p with rfl | ⟨q, x, rfl⟩
  · simp [archivesBelow]
  · rw [List.concat_eq_append, Finset.mem_filter, mem_archivesBelow, mem_archivesBelow,
      h (q ++ [x])]
    by_cases hp : q ++ [x] ∈ gone <;> simp [hp]

/-! ## Where archives are written -/

namespace ZfsRun

variable (server : ServerConfig) (backupDir : Path)

/-- Where the run writes its archive. -/
def place (r : ZfsRun) : List Component :=
  (archivePath r.env { server with zfsPool := r.pool } backupDir).locate r.env.cwd

/-- If the archive lies below the snapshots directory, it is one of its entries and matches the
pattern of retention. -/
def InSight (r : ZfsRun) : Prop :=
  let d := (snapshotsDir server backupDir).locate r.env.cwd
  d <+: (r.place server backupDir).dropLast →
    (r.place server backupDir).dropLast = d ∧
      ∀ x ∈ (r.place server backupDir).getLast?, Glob.fnmatch x.val snapshotPattern

instance (r : ZfsRun) : Decidable (r.InSight server backupDir) := by
  unfold InSight; infer_instance

end ZfsRun

/-- A name with `_snapshot_`, whatever timestamp comes after it. -/
def NamesSnapshot (last : String) : Prop :=
  "_snapshot_".toList <:+: last.toList ∨ "_snapshot".toList <:+ last.toList

theorem fnmatch_snapshotPattern_iff {last : String} {t : DateTime} :
    Glob.fnmatch (last ++ ("_" ++ buildTimestamp t ++ ".zfs.gz")) snapshotPattern ↔
      NamesSnapshot last := by
  have hinfix : Glob.fnmatch (last ++ ("_" ++ buildTimestamp t ++ ".zfs.gz")) snapshotPattern ↔
      "_snapshot_".toList <:+: last.toList ++ '_' :: (buildTimestamp t).toList := by
    rw [Glob.fnmatch, tokens_snapshotPattern, Glob.accepts_star]
    constructor
    · rintro ⟨front, rest, hname, hrest⟩
      obtain ⟨middle, rfl⟩ := (Glob.accepts_between _ _ _).mp hrest
      have hend : front ++ "_snapshot_".toList ++ middle ++ ".zfs.gz".toList =
          last.toList ++ '_' :: (buildTimestamp t).toList ++ ".zfs.gz".toList := by
        simpa using hname.symm
      exact ⟨front, middle, List.append_cancel_right hend⟩
    · rintro ⟨front, middle, hname⟩
      refine ⟨front, _, ?_, (Glob.accepts_between _ _ _).mpr ⟨middle, rfl⟩⟩
      have := congrArg (· ++ ".zfs.gz".toList) hname
      simpa using this.symm
  have hletter : 't' ∉ (buildTimestamp t).toList := by
    intro h
    refine forall_mem_buildTimestamp (P := fun c => c ≠ 't') ?_ (by decide) (by decide) t _ h rfl
    rintro c hc rfl
    exact absurd hc (by decide)
  have hsep := @infix_append_sep_iff _ '_' "_snapsho".toList 't' last.toList _ (by decide) hletter
  exact hinfix.trans hsep

/-- The archives of one target go to one directory, under names that differ in the timestamp. -/
theorem exists_place (server : ServerConfig) (backupDir : Path) (cwd : List Component) :
    ∃ (dir : List Component) (last : String), ∀ r : ZfsRun, r.pool = server.zfsPool →
      r.env.cwd = cwd → ∃ x : Component,
        x.val = last ++ ("_" ++ buildTimestamp r.time ++ ".zfs.gz") ∧
        r.place server backupDir = dir ++ [x] := by
  obtain ⟨front, last, hlast, -, hdiv⟩ := Path.exists_div_append (snapshotsDir server backupDir)
    (server.zfsPool ++ "_snapshot_" ++ server.name)
  obtain ⟨p, hdiv⟩ : ∃ p : Path, ∀ (t : String) (z : Component), t ≠ "" → '/' ∉ t.toList →
      z.val = last ++ t → snapshotsDir server backupDir /
        (server.zfsPool ++ "_snapshot_" ++ server.name ++ t) = p.child z := ⟨_, hdiv⟩
  refine ⟨p.locate cwd, last, ?_⟩
  rintro r hpool rfl
  have hslash : '/' ∉ ("_" ++ buildTimestamp r.time ++ ".zfs.gz").toList := by
    simp [slash_notMem_buildTimestamp]
  obtain ⟨x, hx, hdots⟩ := exists_component
    (s := last ++ ("_" ++ buildTimestamp r.time ++ ".zfs.gz")) (by simpa [hlast] using hslash)
    (by simp; omega)
  refine ⟨x, hx, ?_⟩
  have hpath := hdiv ("_" ++ buildTimestamp r.time ++ ".zfs.gz") x (by simp) hslash hx
  rw [ZfsRun.place, ← Path.locate_child _ _ hdots, ← hpath, archivePath, snapshotPath,
    buildSnapshotFilename, hpool]
  simp only [String.append_assoc]
  rfl

/-! ## One run -/

/-- Retention removes entries of its directory that match the pattern. -/
theorem archivesBelow_retention {env : Env} {directory : Path} {pattern : String} {keep : Int}
    {w u : World} {deleted : List Path} (d : List Component)
    (h : RetentionEnd env directory pattern keep w (.ok deleted, u)) :
    ∃ surplus : List Component, (∀ x ∈ surplus, Glob.fnmatch x.val pattern) ∧
      archivesBelow u.files d = (archivesBelow w.files d).filter
        (· ∉ surplus.map fun x => directory.locate env.cwd ++ [x]) := by
  cases h with
  | absent u _ hsame =>
    exact ⟨[], by simp, archivesBelow_filesWithout d fun q => by simpa using hsame q⟩
  | pruned surplus u _ hsurplus _ hgone =>
    refine ⟨surplus, fun x hx => ?_, archivesBelow_filesWithout d hgone⟩
    exact (mem_archives.mp ((hsurplus x).mp hx).1).2.1

/-- Retention sees all archives below `d`, and there are at most `k`. -/
structure Overseen (k : Nat) (t : Files) (d : List Component) : Prop where
  entry : ∀ p ∈ archivesBelow t d, ∃ x, p = d ++ [x] ∧ Glob.fnmatch x.val snapshotPattern
  card_le : (archivesBelow t d).card ≤ k

theorem card_archivesBelow_le {t : Files} {d : List Component}
    (h : ∀ p ∈ archivesBelow t d, ∃ x, p = d ++ [x] ∧ Glob.fnmatch x.val snapshotPattern) :
    (archivesBelow t d).card ≤ (archiveNames t d snapshotPattern).card := by
  have hsub : archivesBelow t d ⊆ (archives t d snapshotPattern).image fun x => d ++ [x] := by
    intro p hp
    obtain ⟨x, rfl, hx⟩ := h p hp
    have hdots : x.val ≠ ".." := by
      intro hdots
      rw [hdots] at hx
      exact absurd hx (by decide)
    exact Finset.mem_image_of_mem _ (mem_archives.mpr ⟨hdots, hx, (mem_archivesBelow.mp hp).2.2⟩)
  calc (archivesBelow t d).card
      ≤ ((archives t d snapshotPattern).image fun x => d ++ [x]).card := Finset.card_le_card hsub
    _ ≤ (archives t d snapshotPattern).card := Finset.card_image_le
    _ = (archiveNames t d snapshotPattern).card :=
      (Finset.card_image_of_injective _ Subtype.val_injective).symm

section Step

variable {server : ServerConfig} {backupDir : Path} {k : Nat} {files : Files} {r : ZfsRun}

/-- The name of the archive ends as all archives do. -/
theorem ZfsRun.exists_place (server : ServerConfig) (backupDir : Path) (r : ZfsRun) :
    ∃ dir x, r.place server backupDir = dir ++ [x] ∧ Glob.fnmatch x.val "*.zfs.gz" := by
  obtain ⟨dir, last, h⟩ := Specification.exists_place { server with zfsPool := r.pool } backupDir
    r.env.cwd
  obtain ⟨x, hx, hplace⟩ := h r rfl rfl
  refine ⟨dir, x, hplace,
    fnmatch_zfs_gz_iff.mpr ⟨(last ++ "_" ++ buildTimestamp r.time).toList, ?_⟩⟩
  rw [hx]
  simp

/-- A run in sight. -/
theorem ZfsRun.overseen (hok : (r.exec server backupDir k files).1 = .ok ())
    (hsight : r.InSight server backupDir)
    (h : Overseen k files ((snapshotsDir server backupDir).locate r.env.cwd)) :
    Overseen k (r.exec server backupDir k files).2.files
      ((snapshotsDir server backupDir).locate r.env.cwd) := by
  obtain ⟨dir, x, hplace, hx⟩ := r.exists_place server backupDir
  obtain ⟨p, v, deleted, hfile, hdir, hret⟩ := backupZfs_ok (Prod.ext hok rfl)
  change FileAt files (r.place server backupDir) _ _ at hfile
  change v.files.isDir (r.place server backupDir).dropLast at hdir
  change RetentionEnd r.env (snapshotsDir server backupDir) _ _ _ _ at hret
  rw [InSight, hplace, List.dropLast_concat, List.getLast?_concat] at hsight
  rw [hplace] at hfile hdir
  rw [List.dropLast_concat] at hdir
  have hadded := archivesBelow_fileAt (d := (snapshotsDir server backupDir).locate r.env.cwd)
    hfile hx
  obtain ⟨surplus, -, hbelow⟩ := archivesBelow_retention
    ((snapshotsDir server backupDir).locate r.env.cwd) hret
  have hentry : ∀ p ∈ archivesBelow (r.exec server backupDir k files).2.files
      ((snapshotsDir server backupDir).locate r.env.cwd),
      ∃ x, p = (snapshotsDir server backupDir).locate r.env.cwd ++ [x] ∧
        Glob.fnmatch x.val snapshotPattern := by
    intro p hp
    have hp := hbelow ▸ hp
    rw [hadded] at hp
    have hp := (Finset.mem_filter.mp hp).1
    split at hp
    · next hd =>
      rcases Finset.mem_insert.mp hp with rfl | hp
      · exact ⟨x, by rw [(hsight hd).1], (hsight hd).2 x rfl⟩
      · exact h.entry p hp
    · exact h.entry p hp
  refine ⟨hentry, ?_⟩
  by_cases hthere : v.files.isDir ((snapshotsDir server backupDir).locate r.env.cwd)
  · refine (card_archivesBelow_le hentry).trans ?_
    have hnewest := hret.archiveNames_eq hthere
    exact (congrArg Finset.card hnewest).trans_le (card_newest_le _ _)
  · have haway : ¬ (snapshotsDir server backupDir).locate r.env.cwd <+: dir :=
      fun hd => hthere ((hsight hd).1 ▸ hdir)
    rw [if_neg haway] at hadded
    have hsub := (congrArg Finset.card hbelow).trans_le (Finset.card_filter_le _ _)
    exact hsub.trans (hadded ▸ h.card_le)

/-- A run out of sight adds its archive to those below the directory, and none of them goes. -/
theorem ZfsRun.archivesBelow_eq (hok : (r.exec server backupDir k files).1 = .ok ())
    (hsight : ¬ r.InSight server backupDir)
    (h : ∀ p ∈ archivesBelow files ((snapshotsDir server backupDir).locate r.env.cwd),
      ∀ x, p = (snapshotsDir server backupDir).locate r.env.cwd ++ [x] →
        ¬ Glob.fnmatch x.val snapshotPattern) :
    archivesBelow (r.exec server backupDir k files).2.files
        ((snapshotsDir server backupDir).locate r.env.cwd) =
      insert (r.place server backupDir)
        (archivesBelow files ((snapshotsDir server backupDir).locate r.env.cwd)) := by
  obtain ⟨dir, x, hplace, hx⟩ := r.exists_place server backupDir
  obtain ⟨p, v, deleted, hfile, -, hret⟩ := backupZfs_ok (Prod.ext hok rfl)
  change FileAt files (r.place server backupDir) _ _ at hfile
  change RetentionEnd r.env (snapshotsDir server backupDir) _ _ _ _ at hret
  rw [InSight, hplace, List.dropLast_concat, List.getLast?_concat] at hsight
  push Not at hsight
  obtain ⟨hbelow, hhidden⟩ := hsight
  rw [hplace] at hfile ⊢
  have hadded := archivesBelow_fileAt (d := (snapshotsDir server backupDir).locate r.env.cwd)
    hfile hx
  rw [if_pos hbelow] at hadded
  obtain ⟨surplus, hmatch, hkept⟩ := archivesBelow_retention
    ((snapshotsDir server backupDir).locate r.env.cwd) hret
  rw [← hadded]
  refine hkept.trans (Finset.filter_true_of_mem fun q hq hgone => ?_)
  obtain ⟨y, hy, rfl⟩ := List.mem_map.mp hgone
  rw [hadded] at hq
  rcases Finset.mem_insert.mp hq with hq | hq
  · obtain ⟨rfl, rfl⟩ := List.append_singleton_inj.mp hq
    obtain ⟨z, hz, hno⟩ := hhidden rfl
    cases hz
    exact hno (hmatch y hy)
  · exact h _ hq y rfl (hmatch y hy)

end Step

/-- Runs with one target in one working directory are all in sight or all out of it. -/
theorem inSight_congr (server : ServerConfig) (backupDir : Path) {r r' : ZfsRun}
    (hpool : r.pool = r'.pool) (hcwd : r.env.cwd = r'.env.cwd) :
    r.InSight server backupDir ↔ r'.InSight server backupDir := by
  obtain ⟨dir, last, hplace⟩ := exists_place { server with zfsPool := r'.pool } backupDir r'.env.cwd
  have hiff : ∀ r : ZfsRun, r.pool = r'.pool → r.env.cwd = r'.env.cwd →
      (r.InSight server backupDir ↔
        ((snapshotsDir server backupDir).locate r'.env.cwd <+: dir →
          dir = (snapshotsDir server backupDir).locate r'.env.cwd ∧ NamesSnapshot last)) := by
    intro r hpool hcwd
    obtain ⟨x, hx, hr⟩ := hplace r hpool hcwd
    change r.place server backupDir = dir ++ [x] at hr
    rw [ZfsRun.InSight, hr, List.dropLast_concat, List.getLast?_concat, hcwd]
    simp only [Option.mem_def, Option.some.injEq, forall_eq', hx, fnmatch_snapshotPattern_iff]
  exact (hiff r hpool hcwd).trans (hiff r' rfl rfl).symm

/-- A text that zfs can take as the name of a pool or a dataset: components between slashes, none of
them empty, `.` or `..`. -/
def IsTarget (pool : String) : Prop :=
  components pool ≠ [] ∧ "/".intercalate ((components pool).map Subtype.val) = pool ∧
    ∀ x ∈ components pool, x.val ≠ ".."

instance (pool : String) : Decidable (IsTarget pool) := by unfold IsTarget; infer_instance

/-- A pool is in sight, a dataset below it is not. -/
theorem inSight_iff {server : ServerConfig} (backupDir : Path) {r : ZfsRun}
    (htarget : IsTarget r.pool) (hserver : '/' ∉ server.name.toList) :
    r.InSight server backupDir ↔ '/' ∉ r.pool.toList := by
  obtain ⟨hne, hpool, hdots⟩ := htarget
  rcases List.eq_nil_or_concat (components r.pool) with hnil | ⟨parents, x, hparts⟩
  · exact absurd hnil hne
  rw [List.concat_eq_append] at hparts
  rw [hparts] at hpool hdots
  have hslash : '/' ∉ r.pool.toList ↔ parents = [] := by
    rw [← hpool]
    cases parents with
    | nil => simpa using x.2.2.2
    | cons y ys =>
      rw [List.cons_append, List.map_cons, String.intercalate_cons_of_ne_nil (by simp)]
      simp
  have hend : '/' ∉ ("_snapshot_" ++ server.name ++ "_" ++ buildTimestamp r.time ++
      ".zfs.gz").toList := by
    simp [hserver, slash_notMem_buildTimestamp]
  obtain ⟨y, hy, hydots⟩ := exists_component
    (s := x.val ++ ("_snapshot_" ++ server.name ++ "_" ++ buildTimestamp r.time ++ ".zfs.gz"))
    (by rw [String.toList_append, List.mem_append]; exact not_or.mpr ⟨x.2.2.2, hend⟩)
    (by simp; omega)
  have hpath : archivePath r.env { server with zfsPool := r.pool } backupDir =
      (⟨(snapshotsDir server backupDir).root,
        (snapshotsDir server backupDir).parts ++ parents⟩ : Path).child y := by
    have hstr : ((⟨.none, parents⟩ : Path).child x).str = r.pool := by
      rw [← hpool, Path.str, if_neg (by simp [Path.child])]
      simp [Path.child, Root.text]
    have hname := Path.ofString_str_child ⟨.none, parents⟩ hy
    rw [hstr] at hname
    have hfile : buildSnapshotFilename server.name r.pool (buildTimestamp r.time) =
        r.pool ++ ("_snapshot_" ++ server.name ++ "_" ++ buildTimestamp r.time ++ ".zfs.gz") := by
      simp only [buildSnapshotFilename, String.append_assoc]
    change (snapshotsDir server backupDir).join (Path.ofString
      (buildSnapshotFilename server.name r.pool (buildTimestamp r.time))) = _
    rw [hfile, hname]
    simp [Path.join, Path.child]
  have hplace : r.place server backupDir =
      (snapshotsDir server backupDir).locate r.env.cwd ++ parents ++ [y] := by
    rw [ZfsRun.place, hpath, Path.locate_child _ _ hydots,
      Path.locate_append _ _ fun z hz => hdots z (by simp [hz])]
  rw [ZfsRun.InSight, hplace, List.dropLast_concat, List.getLast?_concat, hslash]
  constructor
  · intro h
    simpa using (h (List.prefix_append _ _)).1
  · rintro rfl -
    refine ⟨by simp, fun z hz => ?_⟩
    have hpattern := fnmatch_buildSnapshotFilename server.name x.val (buildTimestamp r.time)
    cases hz
    rw [hy]
    simpa only [buildSnapshotFilename, String.append_assoc] using hpattern

/-! ## Runs with one target -/

/-- A history with one target: all runs in one working directory, timestamps increase, every run
returns, and no archive is below the snapshots directory at the start. -/
structure TargetHistory (server : ServerConfig) (backupDir : Path) (k : Nat)
    (cwd : List Component) (start : Files) (runs : List ZfsRun) : Prop where
  cwd_eq : ∀ r ∈ runs, r.env.cwd = cwd
  pool_eq : ∀ r ∈ runs, r.pool = server.zfsPool
  increasing : runs.Pairwise fun r r' => r.time.toSecond < r'.time.toSecond
  returns : ∀ i : Fin runs.length,
    ((runs.get i).exec server backupDir k (ZfsRun.after server backupDir k start (runs.take i))).1 =
      .ok ()
  empty : archivesBelow start ((snapshotsDir server backupDir).locate cwd) = ∅

namespace TargetHistory

variable {server : ServerConfig} {backupDir : Path} {k : Nat} {cwd : List Component}
  {start : Files} {runs : List ZfsRun}

theorem overseen (h : TargetHistory server backupDir k cwd start runs)
    (hsight : ∀ r ∈ runs, r.InSight server backupDir) {n : Nat} (hn : n ≤ runs.length) :
    Overseen k (ZfsRun.after server backupDir k start (runs.take n))
      ((snapshotsDir server backupDir).locate cwd) := by
  induction n with
  | zero => exact ⟨by simp [h.empty], by simp [h.empty]⟩
  | succ n ih =>
    have hmem : runs[n] ∈ runs := List.getElem_mem hn
    have hstep := ZfsRun.overseen (h.returns ⟨n, hn⟩) (hsight _ hmem)
      (h.cwd_eq _ hmem ▸ ih (by omega))
    rw [← List.take_append_getElem hn, ZfsRun.after_concat, ← h.cwd_eq _ hmem]
    exact hstep

/-- Out of sight the archives add up. -/
theorem archivesBelow_after (h : TargetHistory server backupDir k cwd start runs)
    (hhidden : ∀ r ∈ runs, ¬ r.InSight server backupDir) {n : Nat} (hn : n ≤ runs.length) :
    archivesBelow (ZfsRun.after server backupDir k start (runs.take n))
        ((snapshotsDir server backupDir).locate cwd) =
      ((runs.take n).map (ZfsRun.place server backupDir)).toFinset := by
  induction n with
  | zero => exact h.empty
  | succ n ih =>
    have hmem : runs[n] ∈ runs := List.getElem_mem hn
    have ih := ih (by omega)
    rw [← h.cwd_eq _ hmem] at ih ⊢
    have hunseen : ∀ p ∈ archivesBelow (ZfsRun.after server backupDir k start (runs.take n))
        ((snapshotsDir server backupDir).locate runs[n].env.cwd), ∀ x,
        p = (snapshotsDir server backupDir).locate runs[n].env.cwd ++ [x] →
          ¬ Glob.fnmatch x.val snapshotPattern := by
      rintro p hp x rfl hx
      rw [ih, List.mem_toFinset, List.mem_map] at hp
      obtain ⟨r, hr, hp⟩ := hp
      have hr := List.mem_of_mem_take hr
      refine hhidden r hr fun _ => ?_
      rw [hp, List.dropLast_concat, List.getLast?_concat, h.cwd_eq r hr, h.cwd_eq _ hmem]
      exact ⟨rfl, by simpa using hx⟩
    have hstep := ZfsRun.archivesBelow_eq (h.returns ⟨n, hn⟩) (hhidden _ hmem) hunseen
    rw [← List.take_append_getElem hn, ZfsRun.after_concat]
    refine hstep.trans ((congrArg (insert (runs[n].place server backupDir)) ih).trans ?_)
    ext p
    simp only [Finset.mem_insert, List.mem_toFinset, List.map_append, List.map_singleton,
      List.mem_append, List.mem_singleton]
    exact or_comm

/-- Archives of different runs have different places. -/
theorem nodup_places (h : TargetHistory server backupDir k cwd start runs) :
    (runs.map (ZfsRun.place server backupDir)).Nodup := by
  obtain ⟨dir, last, hplace⟩ := exists_place server backupDir cwd
  refine List.pairwise_map.mpr (h.increasing.imp_of_mem ?_)
  intro r r' hr hr' hlt heq
  obtain ⟨x, hx, hrx⟩ := hplace r (h.pool_eq r hr) (h.cwd_eq r hr)
  obtain ⟨y, hy, hry⟩ := hplace r' (h.pool_eq r' hr') (h.cwd_eq r' hr')
  rw [hrx, hry] at heq
  have hname : last ++ ("_" ++ buildTimestamp r.time ++ ".zfs.gz") =
      last ++ ("_" ++ buildTimestamp r'.time ++ ".zfs.gz") := by
    rw [← hx, ← hy, (List.append_singleton_inj.mp heq).2]
  have hstamp : buildTimestamp r.time = buildTimestamp r'.time := by
    have hlists := congrArg String.toList hname
    simpa only [String.toList_append, List.append_assoc, List.append_cancel_left_eq,
      List.append_cancel_right_eq, String.toList_inj] using hlists
  rw [toSecond_eq_of_buildTimestamp_eq hstamp] at hlt
  exact lt_irrefl _ hlt

/-- After every run there are at most `k` archives below the snapshots directory. -/
def Bounded (server : ServerConfig) (backupDir : Path) (k : Nat) (cwd : List Component)
    (start : Files) (runs : List ZfsRun) : Prop :=
  ∀ i : Fin runs.length,
    (archivesBelow (ZfsRun.after server backupDir k start (runs.take (i + 1)))
      ((snapshotsDir server backupDir).locate cwd)).card ≤ k

instance : Decidable (Bounded server backupDir k cwd start runs) := by
  unfold Bounded; infer_instance

theorem bounded_iff (h : TargetHistory server backupDir k cwd start runs) :
    Bounded server backupDir k cwd start runs ↔
      runs.length ≤ k ∨ ∀ r ∈ runs, r.InSight server backupDir := by
  have hcases : (∀ r ∈ runs, r.InSight server backupDir) ∨
      ∀ r ∈ runs, ¬ r.InSight server backupDir := by
    refine or_iff_not_imp_left.mpr fun hsome r hr => ?_
    push Not at hsome
    obtain ⟨r', hr', hhidden⟩ := hsome
    rwa [inSight_congr server backupDir ((h.pool_eq r hr).trans (h.pool_eq r' hr').symm)
      ((h.cwd_eq r hr).trans (h.cwd_eq r' hr').symm)]
  rcases hcases with hsight | hhidden
  · exact iff_of_true (fun i => (h.overseen hsight i.2).card_le) (.inr hsight)
  have hcard : ∀ n ≤ runs.length,
      (archivesBelow (ZfsRun.after server backupDir k start (runs.take n))
        ((snapshotsDir server backupDir).locate cwd)).card = n := by
    intro n hn
    rw [h.archivesBelow_after hhidden hn, List.toFinset_card_of_nodup
      (h.nodup_places.sublist ((List.take_sublist n runs).map _))]
    simpa using hn
  constructor
  · intro hall
    rcases List.eq_nil_or_concat runs with rfl | ⟨rs, r, hrs⟩
    · exact .inl (Nat.zero_le k)
    have hlen : runs.length = rs.length + 1 := by simp [hrs]
    have hlast : rs.length + 1 ≤ k := by
      rw [← hcard (rs.length + 1) (by omega)]
      exact hall ⟨rs.length, by omega⟩
    exact .inl (by omega)
  · rintro (hfew | hsight) i
    · rw [hcard _ i.2]
      exact le_trans i.2 hfew
    · exact (h.overseen hsight i.2).card_le

/-- The archives of one target stay within the retention count exactly if there are no more runs
than that or all of them write where retention looks; which a pool does and a dataset below a
pool does not. -/
theorem archives_bounded_iff (h : TargetHistory server backupDir k cwd start runs) :
    (Bounded server backupDir k cwd start runs ↔
      runs.length ≤ k ∨ ∀ r ∈ runs, r.InSight server backupDir) ∧
    (IsTarget server.zfsPool → '/' ∉ server.name.toList →
      (Bounded server backupDir k cwd start runs ↔
        runs.length ≤ k ∨ '/' ∉ server.zfsPool.toList)) := by
  refine ⟨h.bounded_iff, fun htarget hserver => h.bounded_iff.trans ?_⟩
  have hsight : ∀ r ∈ runs, r.InSight server backupDir ↔ '/' ∉ server.zfsPool.toList := by
    intro r hr
    rw [← h.pool_eq r hr] at htarget ⊢
    exact inSight_iff backupDir htarget hserver
  constructor
  · rintro (hfew | hall)
    · exact .inl hfew
    · rcases List.eq_nil_or_concat runs with rfl | ⟨rs, r, hrs⟩
      · exact .inl (Nat.zero_le k)
      · have hr : r ∈ runs := by simp [hrs]
        exact .inr ((hsight r hr).mp (hall r hr))
  · rintro (hfew | hslash)
    · exact .inl hfew
    · exact .inr fun r hr => (hsight r hr).mpr hslash

end TargetHistory

theorem archives_bounded_sample :
    TargetHistory.Bounded sampleServer sampleBase 1 [] ∅ (sampleRuns "rpool" "rpool") :=
  have h : TargetHistory sampleServer sampleBase 1 [] ∅ (sampleRuns "rpool" "rpool") :=
    ⟨by decide, by decide, by decide, by decide +kernel, by decide +kernel⟩
  (h.archives_bounded_iff.2 (by decide) (by decide)).mpr (.inr (by decide))

/-- The target is a dataset below a pool: with one archive to keep there are two after the second
run. -/
theorem dataset_archives_add_up :
    let server := { sampleServer with zfsPool := "rpool/data" }
    let runs := sampleRuns "rpool/data" "rpool/data"
    IsTarget server.zfsPool ∧ TargetHistory server sampleBase 1 [] ∅ runs ∧
      ¬ TargetHistory.Bounded server sampleBase 1 [] ∅ runs :=
  ⟨by decide, ⟨by decide, by decide, by decide, by decide +kernel, by decide +kernel⟩,
    by decide +kernel⟩

end SrvBackup.Specification
