import SrvBackup.Specification.Transfer
import Mathlib.Data.List.Infix

/-!
# Histories of snapshot archives

A history is a list of runs of `backupZfs` for one server, each with the pool that is configured
at its time. `backupZfs_archiveNames` says what one run does to the archives,
`archiveNames_afterRuns` what a history does: the archives rotate in the order of their names.
The order of names is not the order of time when pools differ, which gives the condition of
`latest_kept_iff`.
-/
namespace SrvBackup.Specification

open SrvBackup.Domain SrvBackup.Effects SrvBackup.Storage SrvBackup.Text SrvBackup.Adapters

/-- The pattern of snapshot archives. -/
def snapshotPattern : String := "*_snapshot_*.zfs.gz"

theorem tokens_snapshotPattern : Glob.tokens snapshotPattern =
    .star :: (Glob.literals "_snapshot_" ++ .star :: Glob.literals ".zfs.gz") := by
  decide

/-- Every snapshot archive matches the pattern, whatever the pool and the server. -/
theorem fnmatch_buildSnapshotFilename (server pool timestamp : String) :
    Glob.fnmatch (buildSnapshotFilename server pool timestamp) snapshotPattern := by
  rw [Glob.fnmatch, tokens_snapshotPattern, Glob.accepts_star]
  refine ⟨pool.toList, _, by simp [buildSnapshotFilename]; rfl, ?_⟩
  rw [Glob.accepts_between]
  exact ⟨server.toList ++ "_".toList ++ timestamp.toList, by simp⟩

/-- A run that returns wrote its archive and went through retention. -/
theorem backupZfs_ok {env : Env} {server : ServerConfig} {backupDir : Path} {ssh : Ssh}
    {retentionCount : Int} {files : Files} {u : World}
    (h : env.exec (backupZfs server backupDir ssh retentionCount false) files = (.ok (), u)) :
    ∃ (p : PipedProcess) (v : World) (deleted : List Path),
      FileAt files ((archivePath env server backupDir).locate env.cwd) (some p.stdout) v.files ∧
      v.files.isDir ((archivePath env server backupDir).locate env.cwd).dropLast ∧
      RetentionEnd env (snapshotsDir server backupDir) snapshotPattern retentionCount v
        (.ok deleted, u) := by
  rw [backupZfs_exec] at h
  obtain ⟨_, v, hsend, hret⟩ := Program.run_bind_eq_ok h
  obtain ⟨deleted, u', hret, hu⟩ := Program.run_bind_eq_ok hret
  have hend := zfsTransfer_end env server backupDir ssh (buildTimestamp (env.clock 0))
    (World.record ⟨files, []⟩ .now (env.act 0 .now files))
  rw [hsend] at hend
  cases hend with
  | tried v₁ v₂ _ _ hv₁ _ hend hv₂ _ =>
    cases hend with
    | sent failed exited v₃ _ _ hpipe _ hv₃ =>
      cases hpipe with
      | written p _ _ _ hdir hfile =>
        have hfiles : v.files = v₃.files := hv₂.trans hv₃
        refine ⟨p, v, deleted, ?_, ?_, ?_⟩
        · rw [hfiles]
          intro q
          rw [hfile q, hv₁]
          rfl
        · rw [hfiles]
          exact hdir
        · have hend := applyRetention_end env (snapshotsDir server backupDir) snapshotPattern
            retentionCount v
          rw [snapshotPattern, hret] at hend
          simp only [Program.pure_eq, Program.run_ret, Prod.mk.injEq, true_and] at hu
          exact hu ▸ hend

theorem buildSnapshotFilename_eq_stamped (server pool timestamp : String) :
    buildSnapshotFilename server pool timestamp =
      stamped (pool ++ "_snapshot_" ++ server ++ "_") ".zfs.gz" timestamp := rfl

/-- With slash-free names the archive is an entry of the snapshots directory. -/
theorem exists_archive_entry {server pool : String} (hserver : '/' ∉ server.toList)
    (hpool : '/' ∉ pool.toList) (t : DateTime) :
    ∃ x : Component, x.val = buildSnapshotFilename server pool (buildTimestamp t) ∧
      x.val ≠ ".." := by
  apply exists_component
  · rw [buildSnapshotFilename_eq_stamped]
    exact slash_notMem_stamped (by simp [hserver, hpool]) (by decide) t
  · simp [buildSnapshotFilename]
    omega

/-- One run adds its archive to the directory and keeps the greatest names. -/
theorem backupZfs_archiveNames {env : Env} (server : ServerConfig) {backupDir : Path} {ssh : Ssh}
    {retentionCount : Int} {files : Files} {u : World} (hserver : '/' ∉ server.name.toList)
    (hpool : '/' ∉ server.zfsPool.toList)
    (h : env.exec (backupZfs server backupDir ssh retentionCount false) files = (.ok (), u)) :
    archiveNames u.files ((snapshotsDir server backupDir).locate env.cwd) snapshotPattern =
      newest retentionCount.toNat (insert
        (buildSnapshotFilename server.name server.zfsPool (buildTimestamp (env.clock 0)))
        (archiveNames files ((snapshotsDir server backupDir).locate env.cwd) snapshotPattern)) := by
  obtain ⟨p, v, deleted, hfile, hdir, hret⟩ := backupZfs_ok h
  obtain ⟨x, hx, hdot⟩ := exists_archive_entry hserver hpool (env.clock 0)
  have hloc : (archivePath env server backupDir).locate env.cwd =
      (snapshotsDir server backupDir).locate env.cwd ++ [x] := by
    rw [archivePath, snapshotPath, ← hx, Path.div_val, Path.locate_child _ _ hdot]
  rw [hloc] at hfile hdir
  rw [List.dropLast_concat] at hdir
  have hmatch : Glob.fnmatch x.val snapshotPattern := hx ▸ fnmatch_buildSnapshotFilename _ _ _
  rw [hret.archiveNames_eq hdir, archiveNames_fileAt hfile hdot hmatch, hx]

/-! ## Runs one after the other -/

/-- One run: the pool that is configured, the environment it meets and its ssh arguments. -/
structure ZfsRun where
  pool : String
  env : Env
  ssh : Ssh

namespace ZfsRun

variable (server : ServerConfig) (backupDir : Path) (k : Nat)

/-- When the run takes its timestamp. -/
def time (r : ZfsRun) : DateTime := r.env.clock 0

def archive (r : ZfsRun) : String :=
  buildSnapshotFilename server.name r.pool (buildTimestamp r.time)

def exec (r : ZfsRun) (files : Files) : Except Error Unit × World :=
  r.env.exec (backupZfs { server with zfsPool := r.pool } backupDir r.ssh k false) files

/-- The files after the runs, each of which starts from what the one before it left. -/
def after (start : Files) (runs : List ZfsRun) : Files :=
  runs.foldl (fun files r => (r.exec server backupDir k files).2.files) start

@[simp] theorem after_nil (start : Files) : after server backupDir k start [] = start := rfl

@[simp] theorem after_concat (start : Files) (runs : List ZfsRun) (r : ZfsRun) :
    after server backupDir k start (runs ++ [r]) =
      (r.exec server backupDir k (after server backupDir k start runs)).2.files := by
  simp [after]

end ZfsRun

/-- A history: all runs in one working directory and with slash-free pools, every run returns,
timestamps have four-digit years and increase, and no archive is there at the start. -/
structure ZfsHistory (server : ServerConfig) (backupDir : Path) (k : Nat) (cwd : List Component)
    (start : Files) (runs : List ZfsRun) : Prop where
  cwd_eq : ∀ r ∈ runs, r.env.cwd = cwd
  pool_valid : ∀ r ∈ runs, '/' ∉ r.pool.toList
  year_valid : ∀ r ∈ runs, 1000 ≤ r.time.year
  increasing : runs.Pairwise fun r r' => r.time.toSecond < r'.time.toSecond
  returns : ∀ i : Fin runs.length,
    ((runs.get i).exec server backupDir k (ZfsRun.after server backupDir k start (runs.take i))).1 =
      .ok ()
  empty : archiveNames start ((snapshotsDir server backupDir).locate cwd) snapshotPattern = ∅

namespace ZfsHistory

variable {server : ServerConfig} {backupDir : Path} {k : Nat} {cwd : List Component}
  {start : Files} {runs : List ZfsRun}

/-- Archives rotate in the order of their names. -/
theorem archiveNames_after (h : ZfsHistory server backupDir k cwd start runs)
    (hserver : '/' ∉ server.name.toList) {n : Nat} (hn : n ≤ runs.length) :
    archiveNames (ZfsRun.after server backupDir k start (runs.take n))
        ((snapshotsDir server backupDir).locate cwd) snapshotPattern =
      rotated k ((runs.take n).map (ZfsRun.archive server)) := by
  induction n with
  | zero => exact h.empty
  | succ n ih =>
    generalize hr : runs[n] = r
    have hmem : r ∈ runs := hr ▸ List.getElem_mem hn
    have hok : (r.exec server backupDir k
        (ZfsRun.after server backupDir k start (runs.take n))).1 = .ok () := by
      rw [← hr]
      exact h.returns ⟨n, hn⟩
    have hstep := backupZfs_archiveNames { server with zfsPool := r.pool } hserver
      (h.pool_valid r hmem) (Prod.ext hok rfl)
    rw [h.cwd_eq r hmem] at hstep
    rw [← List.take_append_getElem hn, hr, ZfsRun.after_concat, List.map_append,
      List.map_singleton, rotated_concat, ← ih (by omega)]
    exact hstep

/-- Archives of different runs have different names. -/
theorem nodup_archives (h : ZfsHistory server backupDir k cwd start runs) :
    (runs.map (ZfsRun.archive server)).Nodup := by
  refine List.pairwise_map.mpr (h.increasing.imp_of_mem ?_)
  intro r r' hr hr' hlt heq
  have hstamp := timestamp_eq_of_stamped_eq (h.year_valid r hr) (h.year_valid r' hr') heq
  have hlt' := (buildTimestamp_lt_iff (h.year_valid r hr) (h.year_valid r' hr')).mpr hlt
  rw [hstamp] at hlt'
  exact lt_irrefl _ hlt'

/-- After every run its archive is there, and the archives are the latest `k`, exactly if there
is no run at all or the server's name has no slash and every archive that becomes surplus has a
smaller name than the `k` later ones. -/
theorem latest_kept_iff (hk : 1 ≤ k) (h : ZfsHistory server backupDir k cwd start runs) :
    (∀ i : Fin runs.length,
      (runs.get i).archive server ∈ archiveNames
          (ZfsRun.after server backupDir k start (runs.take (i + 1)))
          ((snapshotsDir server backupDir).locate cwd) snapshotPattern ∧
        KeepsLatest k ((runs.take (i + 1)).map (ZfsRun.archive server))
          (archiveNames (ZfsRun.after server backupDir k start (runs.take (i + 1)))
            ((snapshotsDir server backupDir).locate cwd) snapshotPattern)) ↔
      runs = [] ∨ '/' ∉ server.name.toList ∧ SurplusFirst k (runs.map (ZfsRun.archive server)) := by
  have hrotated := rotated_eq_latest_iff hk h.nodup_archives
  constructor
  · intro hall
    rcases List.eq_nil_or_concat runs with hnil | ⟨rs, r, hrs⟩
    · exact .inl hnil
    have hserver : '/' ∉ server.name.toList := by
      have hlt : rs.length < runs.length := by simp [hrs]
      obtain ⟨x, -, hx⟩ := Finset.mem_image.mp (hall ⟨rs.length, hlt⟩).1
      have hslash := x.2.2.2
      rw [hx] at hslash
      simp only [ZfsRun.archive, buildSnapshotFilename, String.toList_append, List.mem_append,
        not_or] at hslash
      exact hslash.1.1.1.2
    refine .inr ⟨hserver, hrotated.mp fun q hq => ?_⟩
    obtain ⟨p, hp, rfl⟩ := List.prefix_map_iff.mp hq
    rw [List.prefix_iff_eq_take.mp hp]
    cases hlen : p.length with
    | zero => simp
    | succ n =>
      have hlt : n < runs.length := by
        have := hp.length_le
        omega
      rw [← h.archiveNames_after hserver hlt]
      exact (hall ⟨n, hlt⟩).2.1
  · rintro (rfl | ⟨hserver, hfirst⟩)
    · exact fun i => i.elim0
    intro i
    have hnames := h.archiveNames_after hserver i.2
    have hlatest := hrotated.mpr hfirst _ ((List.take_prefix (i + 1) runs).map _)
    have hnodup := h.nodup_archives.sublist ((List.take_sublist (i + 1) runs).map _)
    rw [hnames, hlatest]
    refine ⟨?_, (keepsLatest_iff hnodup).mpr rfl⟩
    obtain ⟨j, rfl⟩ := Nat.exists_eq_add_of_le' hk
    rw [List.take_succ_eq_append_getElem i.2, List.map_append, List.map_singleton,
      List.rtake_concat_succ]
    simp

end ZfsHistory

/-- A run of the sample server at the given second, with the given pool. -/
def sampleRun (pool : String) (second : Nat) (hsecond : second < 60 := by decide) : ZfsRun where
  pool := pool
  env := { sampleEnv (.ok ⟨0, [31, 139, 8], ""⟩) with
    clock := fun _ => { sampleTime with second := second, second_valid := hsecond } }
  ssh := sampleSsh

/-- Two runs with the given pools. -/
def sampleRuns (first second : String) : List ZfsRun :=
  [sampleRun first 0 sampleTime.second_valid, sampleRun second 1]

theorem latest_kept_sample :
    (sampleRun "rpool" 1).archive sampleServer ∈ archiveNames
      (ZfsRun.after sampleServer sampleBase 1 ∅ (sampleRuns "rpool" "rpool"))
      ((snapshotsDir sampleServer sampleBase).locate []) snapshotPattern :=
  have h : ZfsHistory sampleServer sampleBase 1 [] ∅ (sampleRuns "rpool" "rpool") :=
    ⟨by decide, by decide, by decide, by decide, by decide +kernel, by decide +kernel⟩
  ((ZfsHistory.latest_kept_iff (by decide) h).mpr
      (.inr ⟨by decide, surplusFirst_of_increasing (by decide +kernel)⟩) ⟨1, by decide⟩).1

/-- The pool of a server changes from `tank` to `rpool`: with one archive to keep, the new one is
deleted at once. -/
theorem backupZfs_prunes_new_archive :
    ZfsHistory sampleServer sampleBase 1 [] ∅ (sampleRuns "tank" "rpool") ∧
      (sampleRun "rpool" 1).archive sampleServer ∉ archiveNames
        (ZfsRun.after sampleServer sampleBase 1 ∅ (sampleRuns "tank" "rpool"))
        ((snapshotsDir sampleServer sampleBase).locate []) snapshotPattern :=
  ⟨⟨by decide, by decide, by decide, by decide, by decide +kernel, by decide +kernel⟩,
    by decide +kernel⟩

end SrvBackup.Specification
