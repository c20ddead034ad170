import SrvBackup.Adapters.Confinement
import SrvBackup.Adapters.Orchestrator
import SrvBackup.Effects.Interleaving
import SrvBackup.Specification.Transfer

/-!
# Local files of a pool

The runs of a pool write below the directories of their own servers. With server names that
are single path components and pools whose names point inward, every operation of a run is
confined to its server's directory, so the runs are isolated in the sense of `Interleaving` and
the tree below the base directory does not depend on the schedule.
-/
namespace SrvBackup.Specification

open SrvBackup.Domain SrvBackup.Effects SrvBackup.Storage SrvBackup.Adapters

/-- The name of a server is one step of a path. -/
def SingleComponent (name : String) : Prop :=
  name ≠ "" ∧ name ≠ "." ∧ name ≠ ".." ∧ '/' ∉ name.toList

instance (name : String) : Decidable (SingleComponent name) := by
  unfold SingleComponent; infer_instance

/-- The file that the event wrote or deleted, or tried to. -/
def changed (cwd : List Component) (ev : Event) : Option (List Component) :=
  match ev.op with
  | .openWrite path | .popen _ path | .writeText path _ | .unlink path => some (path.locate cwd)
  | _ => none

/-- The pools that runs of a server list reach from the tree `files`. -/
def PoolReaches (servers : List ServerConfig) (settings : BackupSettings) (types : BackupType)
    (dryRun : Bool) (env : Fin servers.length → Env) (files : Files) (width : Nat)
    (c : Pool Sys Error BackupResult (Machine servers.length) servers.length) : Prop :=
  Pool.Reaches (poolHandler env) width
    (Pool.initial (backupPool backupSteps servers (.ok settings) types dryRun) ⟨files, fun _ => []⟩)
    c

/-- No two runs change the same file, and every finished pool leaves the same tree below the base
directory. -/
structure FilesApart (servers : List ServerConfig) (settings : BackupSettings) (types : BackupType)
    (dryRun : Bool) (cwd : List Component) (env : Fin servers.length → Env) (files : Files) :
    Prop where
  disjoint : ∀ width c, PoolReaches servers settings types dryRun env files width c →
    ∀ i j, i ≠ j → ∀ ev ∈ c.shared.log i, ∀ ev' ∈ c.shared.log j, ∀ loc,
      changed cwd ev = some loc → changed cwd ev' ≠ some loc
  same : ∀ width c width' c', PoolReaches servers settings types dryRun env files width c →
    PoolReaches servers settings types dryRun env files width' c' → c.Complete → c'.Complete →
    ∀ x rest, c.shared.files.get? (settings.backupBaseDir.locate cwd ++ x :: rest) =
      c'.shared.files.get? (settings.backupBaseDir.locate cwd ++ x :: rest)

/-! ## Where a run works -/

section Directory

variable {server : ServerConfig} {backupDir : Path} {cwd : List Component} {x : Component}

theorem component_dir (backupDir : Path) (cwd : List Component) {t : String}
    (hslash : '/' ∉ t.toList) (hlen : 3 ≤ t.toList.length)
    (hx : x.val = server.name) (hdots : x.val ≠ "..") :
    backupDir.locate cwd ++ [x] <+: (backupDir / server.name / t).locate cwd ∧
      backupDir.locate cwd ++ [x] <+: ((backupDir / server.name / t).locate cwd).dropLast := by
  obtain ⟨y, rfl, hy⟩ := exists_component hslash hlen
  rw [← hx, Path.div_val, Path.div_val, Path.locate_child _ _ hy, Path.locate_child _ _ hdots]
  simp

/-- The files of a server lie below its directory. -/
theorem stamped_confined {d : Path} (pre : String) {post : String}
    (hd : backupDir.locate cwd ++ [x] <+: d.locate cwd) (hpre : '/' ∉ pre.toList)
    (hpost : '/' ∉ post.toList) (hlen : 3 ≤ pre.toList.length) (t : DateTime) :
    FileFootprint (Confined cwd (backupDir.locate cwd ++ [x]))
      (d / stamped pre post (buildTimestamp t)) := by
  obtain ⟨y, hval, hy⟩ := exists_component (slash_notMem_stamped hpre hpost t)
    (by simp only [stamped, String.toList_append, List.length_append]; omega)
  rw [← hval, Path.div_val]
  exact fileFootprint_confined hy hd

theorem snapshotPath_confined (hx : x.val = server.name) (hdots : x.val ≠ "..")
    (hpool : Path.Inward server.zfsPool) (t : DateTime) :
    FileFootprint (Confined cwd (backupDir.locate cwd ++ [x]))
      (snapshotPath server backupDir (buildTimestamp t)) := by
  obtain ⟨ys, z, hpath, hys, hz⟩ := Path.exists_div_inward (snapshotsDir server backupDir) hpool
    (t := "_snapshot_" ++ server.name ++ "_" ++ buildTimestamp t ++ ".zfs.gz")
    (by simp [← hx, x.2.2.2, slash_notMem_buildTimestamp])
    (by simp only [String.toList_append, List.length_append]; simp)
  have hname : snapshotPath server backupDir (buildTimestamp t) =
      snapshotsDir server backupDir / (server.zfsPool ++
        ("_snapshot_" ++ server.name ++ "_" ++ buildTimestamp t ++ ".zfs.gz")) := by
    simp only [snapshotPath, buildSnapshotFilename, String.append_assoc]
  rw [hname, hpath]
  refine fileFootprint_confined hz ?_
  rw [Path.locate_append cwd _ hys]
  exact (component_dir backupDir cwd (by decide) (by decide) hx hdots).1.trans
    (List.prefix_append _ _)

/-- Every operation of a run is confined to the directory of the server. -/
theorem backupServer_confined (hx : x.val = server.name) (hdots : x.val ≠ "..")
    (hpool : Path.Inward server.zfsPool) (settings : BackupSettings) (types : BackupType)
    (dryRun : Bool) :
    (backupServer backupSteps server (.ok settings) types dryRun).Performs (E := Sys)
      (Confined cwd (settings.backupBaseDir.locate cwd ++ [x])) := by
  have hslash : '/' ∉ server.name.toList := hx ▸ x.2.2.2
  have hfree : ∀ {o : Op}, o.reach cwd = none →
      Confined cwd (settings.backupBaseDir.locate cwd ++ [x]) o := by
    intro o ho loc hloc
    simp [ho] at hloc
  obtain ⟨hconfigs, hconfigs'⟩ := component_dir settings.backupBaseDir cwd (t := "configs")
    (by decide) (by decide) hx hdots
  obtain ⟨-, hsnapshots⟩ := component_dir settings.backupBaseDir cwd (t := "snapshots")
    (by decide) (by decide) hx hdots
  refine backupServer_performs (hfree rfl) (fun _ => ⟨?_, ?_⟩) fun _ => ?_
  · refine backupConfig_performs _ _ _ _ dryRun (hfree rfl) (fun t => ?_)
      (dirFootprint_confined hconfigs')
    exact stamped_confined ("backup_config_" ++ server.name ++ "_") hconfigs (by simp [hslash])
      (by decide) (by simp) t
  · refine backupPackages_performs _ dryRun (hfree rfl) (fun _ _ => hfree rfl)
      (fun suffix hsuffix t => ?_) (dirFootprint_confined hconfigs')
    refine stamped_confined ("packages_" ++ suffix ++ "_" ++ server.name ++ "_") hconfigs ?_
      (by decide) (by simp) t
    have hsuffix : '/' ∉ suffix.toList := by
      rcases List.mem_pair.mp hsuffix with rfl | rfl <;> decide
    simp [hsuffix, hslash]
  · exact backupZfs_performs _ dryRun (hfree rfl) (fun _ => hfree rfl)
      (snapshotPath_confined hx hdots hpool) (dirFootprint_confined hsnapshots)

end Directory

/-! ## Runs do not see each other -/

/-- What the run of the server `x` sees of a tree: its directory, and the files in the way of
it. -/
def ownPart (base : List Component) (x : Component) : List Component → Entry Content → Bool
  | q, .dir => base ++ [x] <+: q
  | q, .file _ => base ++ [x] <+: q || q <+: base

section Parts

variable {base : List Component} {x y : Component}

theorem dir_unique {loc : List Component} (hx : base ++ [x] <+: loc)
    (hy : base ++ [y] <+: loc) : x = y := by
  have heq := List.IsPrefix.eq_of_length (List.prefix_of_prefix_length_le hx hy (by simp)) (by simp)
  simpa using heq

theorem not_dir_prefix_base {q : List Component} (hx : base ++ [x] <+: q) : ¬ q <+: base := by
  intro h
  have := (hx.trans h).length_le
  simp at this

theorem ownPart_covers (base : List Component) (x : Component) :
    Covers (ownPart base x) (base ++ [x]) := by
  constructor
  · rintro q hq (_ | c) <;> simp [ownPart, hq]
  · intro q hq c
    rcases List.prefix_concat_iff.mp hq with rfl | hq
    · simp [ownPart]
    · simp [ownPart, hq]

theorem ownPart_misses (base : List Component) (hxy : x ≠ y) :
    Misses (ownPart base y) (base ++ [x]) := by
  constructor
  · rintro q hq (_ | c)
    · simpa [ownPart] using fun h => hxy (dir_unique hq h)
    · simpa [ownPart, not_dir_prefix_base hq] using fun h => hxy (dir_unique hq h)
  · intro q hq h
    simp only [ownPart, decide_eq_true_eq] at h
    exact hxy (dir_unique (List.prefix_refl _) (h.trans hq))

end Parts

/-- The view of run `i`, and what its operations do to it. -/
theorem pool_isolated {n : Nat} {cwd : List Component} (base : List Component) {env : Fin n → Env}
    (hcwd : ∀ i, (env i).cwd = cwd) {dir : Fin n → Component} (hdir : Function.Injective dir) :
    Isolated (poolHandler env) (fun i => Confined cwd (base ++ [dir i]))
      (fun i m => (⟨m.files.restrict (ownPart base (dir i)), m.log i⟩ : World))
      (fun i o w => (((env i).handler o w).1,
        ⟨((env i).handler o w).2.files.restrict (ownPart base (dir i)),
          ((env i).handler o w).2.log⟩)) := by
  constructor
  · intro i o m ho
    rw [← hcwd i] at ho
    obtain ⟨hanswer, hfiles⟩ := Env.act_congr (env i) (m.log i).length
      (ownPart_covers base (dir i)) ho (FileTree.restrict_restrict m.files).symm
    refine ⟨hanswer, ?_⟩
    simp only [poolHandler, Machine.put, Function.update_self, Env.handler, World.record,
      Machine.world, hfiles, hanswer]
  · intro i j o m hij ho
    rw [← hcwd i] at ho
    have hfiles := Env.act_restrict_of_misses (env i) (m.log i).length m.files
      (ownPart_misses base (hdir.ne hij.symm)) ho
    simp only [poolHandler, Machine.put, Env.handler, World.record, Machine.world, hfiles,
      Function.update_of_ne hij]

/-- What a confined operation changes lies below the directory. -/
theorem changed_below {cwd dir loc : List Component} {ev : Event} (h : Confined cwd dir ev.op)
    (hloc : changed cwd ev = some loc) : dir <+: loc := by
  obtain ⟨o, answer⟩ := ev
  cases o <;> cases hloc
  case unlink path => exact h _ rfl
  all_goals exact prefix_of_dropLast (h _ rfl)

/-- An operation confined to another directory leaves what lies below this one. -/
theorem act_get?_of_confined {base rest : List Component} {x y : Component} (hxy : x ≠ y)
    (env : Env) (n : Nat) {o : Op} (t : Files) (ho : Confined env.cwd (base ++ [x]) o) :
    (env.act n o t).2.get? (base ++ y :: rest) = t.get? (base ++ y :: rest) := by
  have happ : base ++ y :: rest = base ++ [y] ++ rest := by simp
  have hmiss : Misses (fun q _ => decide (q = base ++ y :: rest)) (base ++ [x]) := by
    constructor
    · intro q hq e h
      rw [of_decide_eq_true h, happ] at hq
      exact hxy (dir_unique hq (List.prefix_append _ _))
    · intro q hq h
      rw [of_decide_eq_true h, happ] at hq
      exact hxy (dir_unique (List.prefix_refl _) ((List.prefix_append _ _).trans hq))
  exact FileTree.get?_eq_of_restrict_eq (Env.act_restrict_of_misses env n t hmiss ho) (by simp)

/-- Each server has its own directory name. -/
theorem exists_serverDirs {servers : List ServerConfig}
    (hnames : ∀ s ∈ servers, SingleComponent s.name)
    (hdistinct : (servers.map (·.name)).Nodup) :
    ∃ dir : Fin servers.length → Component, Function.Injective dir ∧
      ∀ i, (dir i).val = (servers.get i).name ∧ (dir i).val ≠ ".." := by
  have hdir : ∀ i : Fin servers.length, ∃ x : Component,
      x.val = (servers.get i).name ∧ x.val ≠ ".." := by
    intro i
    obtain ⟨hempty, hdot, hdots, hslash⟩ := hnames (servers.get i) (List.getElem_mem _)
    exact ⟨⟨_, hempty, hdot, hslash⟩, rfl, hdots⟩
  choose dir hval using hdir
  refine ⟨dir, fun i j hij => ?_, hval⟩
  have hname : (servers.get i).name = (servers.get j).name := by
    rw [← (hval i).1, ← (hval j).1, hij]
  have hlt : ∀ i : Fin servers.length, i.val < (servers.map (·.name)).length := by simp
  have hsame : (servers.map (·.name)).get ⟨i, hlt i⟩ = (servers.map (·.name)).get ⟨j, hlt j⟩ := by
    simpa using hname
  simpa [Fin.ext_iff] using (List.Nodup.get_inj_iff hdistinct).mp hsame

section Reached

variable {servers : List ServerConfig} {settings : BackupSettings} {types : BackupType}
  {dryRun : Bool} {env : Fin servers.length → Env} {files : Files} {width : Nat}
  {c : Pool Sys Error BackupResult (Machine servers.length) servers.length}
  {cwd base : List Component} {dir : Fin servers.length → Component}

theorem PoolReaches.log_confined (hc : PoolReaches servers settings types dryRun env files width c)
    (hconfined : ∀ i, (backupPool backupSteps servers (.ok settings) types dryRun i).Performs
      (E := Sys) (Confined cwd (base ++ [dir i]))) (i : Fin servers.length) :
    ∀ ev ∈ c.shared.log i, Confined cwd (base ++ [dir i]) ev.op := by
  refine (hc.preserves_shared (J := fun m => ∀ i, ∀ ev ∈ m.log i,
    Confined cwd (base ++ [dir i]) ev.op) ?_ hconfined fun i ev hev => by cases hev).2 i
  intro i o m ho hm j ev hev
  by_cases hji : j = i
  · subst hji
    simp only [poolHandler, Machine.put, Function.update_self, Env.handler, World.record,
      List.mem_cons] at hev
    rcases hev with rfl | hev
    · exact ho
    · exact hm j ev hev
  · exact hm j ev (by simpa only [poolHandler, Machine.log_put_of_ne _ hji] using hev)

/-- Nothing changes in a directory that is no server's. -/
theorem PoolReaches.get?_of_foreign
    (hc : PoolReaches servers settings types dryRun env files width c)
    (hcwd : ∀ i, (env i).cwd = cwd)
    (hconfined : ∀ i, (backupPool backupSteps servers (.ok settings) types dryRun i).Performs
      (E := Sys) (Confined cwd (base ++ [dir i]))) {x : Component} (hx : ∀ i, dir i ≠ x)
    (rest : List Component) :
    c.shared.files.get? (base ++ x :: rest) = files.get? (base ++ x :: rest) := by
  refine (hc.preserves_shared (J := fun m => m.files.get? (base ++ x :: rest) =
    files.get? (base ++ x :: rest)) ?_ hconfined rfl).2
  intro i o m ho hm
  rw [← hcwd i] at ho
  exact (act_get?_of_confined (hx i) (env i) _ m.files ho).trans hm

end Reached

/-- Runs whose servers are single, distinct path components and whose pools point inward never
change one another's files, and the schedule and the number of workers do not matter for the
tree they leave. -/
theorem localFiles_apart {servers : List ServerConfig} {cwd : List Component}
    {env : Fin servers.length → Env} (settings : BackupSettings) (types : BackupType)
    (dryRun : Bool) (files : Files) (hcwd : ∀ i, (env i).cwd = cwd)
    (hnames : ∀ s ∈ servers, SingleComponent s.name)
    (hdistinct : (servers.map (·.name)).Nodup)
    (hpools : ∀ s ∈ servers, Path.Inward s.zfsPool) :
    FilesApart servers settings types dryRun cwd env files := by
  obtain ⟨dir, hinj, hdir⟩ := exists_serverDirs hnames hdistinct
  have hconfined : ∀ i, (backupPool backupSteps servers (.ok settings) types dryRun i).Performs
      (E := Sys) (Confined cwd (settings.backupBaseDir.locate cwd ++ [dir i])) := fun i =>
    backupServer_confined (hdir i).1 (hdir i).2 (hpools _ (List.getElem_mem _)) settings types
      dryRun
  constructor
  · intro width c hc i j hij ev hev ev' hev' loc hloc hloc'
    have hi := changed_below (hc.log_confined hconfined i ev hev) hloc
    have hj := changed_below (hc.log_confined hconfined j ev' hev') hloc'
    exact hij (hinj (dir_unique hi hj))
  · intro width c width' c' hc hc' hdone hdone' x rest
    by_cases hx : ∃ i, dir i = x
    · obtain ⟨i, rfl⟩ := hx
      have iso := pool_isolated (settings.backupBaseDir.locate cwd) hcwd hinj
      have hview := (iso.view_final hc hconfined hdone i).trans
        (iso.view_final hc' hconfined hdone' i).symm
      refine FileTree.get?_eq_of_restrict_eq (congrArg World.files hview) ?_
      exact (ownPart_covers (settings.backupBaseDir.locate cwd) (dir i)).below _ (by simp)
    · push Not at hx
      rw [hc.get?_of_foreign hcwd hconfined hx, hc'.get?_of_foreign hcwd hconfined hx]

def sampleSettings : BackupSettings where
  backupBaseDir := sampleBase
  maxParallel := 2
  zfsRetentionCount := 1
  configRetentionCount := 1
  packagelistRetentionCount := 1
  sshUser := "root"
  sshConnectTimeout := 15
  sshKeyDir := "/root/.ssh"
  sshKeyPrefix := "backup_pull"

theorem localFiles_apart_sample :
    FilesApart [sampleServer, { sampleServer with name := "px02" }] sampleSettings .all false []
      (fun _ => sampleEnv (.ok ⟨0, [31], ""⟩)) sampleFiles :=
  localFiles_apart sampleSettings .all false sampleFiles (fun _ => rfl) (by decide) (by decide)
    (by decide)

/-- The pool of the first server is an absolute path into the directory of the second. -/
def strayServers : List ServerConfig :=
  [{ name := "a", hostname := "a.lan", zfsPool := "/backups/b/snapshots/x" },
   { name := "b", hostname := "b.lan", zfsPool := "rpool" }]

/-- The files of the finished pool that a schedule leads to. -/
def scheduledFiles (schedule : List (Pool.Move 2)) : Option Files :=
  ((Pool.initial (backupPool backupSteps strayServers (.ok sampleSettings) .zfs false)
    ⟨∅, fun _ => []⟩).follow
      (poolHandler fun _ => sampleEnv (.ok ⟨0, [31], ""⟩)) 2 schedule).bind fun c =>
    if c.Complete then some c.shared.files else none

theorem exists_of_scheduledFiles {schedule : List (Pool.Move 2)} {t : Files}
    (h : scheduledFiles schedule = some t) :
    ∃ c, PoolReaches strayServers sampleSettings .zfs false
      (fun _ => sampleEnv (.ok ⟨0, [31], ""⟩)) ∅ 2 c ∧ c.Complete ∧ c.shared.files = t := by
  obtain ⟨c, hc, hdone⟩ := Option.bind_eq_some_iff.mp h
  obtain ⟨hdone, hfiles⟩ := Option.ite_none_right_eq_some.mp hdone
  exact ⟨c, Pool.reaches_of_follow hc, hdone, Option.some.inj hfiles⟩

/-- If `a` writes its archive first, retention for `b` counts it and deletes the archive of
`b`; in the other order both archives stay. -/
theorem stray_pool_meets_other_server :
    (∀ s ∈ strayServers, SingleComponent s.name) ∧ (strayServers.map (·.name)).Nodup ∧
      ¬ FilesApart strayServers sampleSettings .zfs false []
        (fun _ => sampleEnv (.ok ⟨0, [31], ""⟩)) ∅ := by
  refine ⟨by decide, by decide, fun h => ?_⟩
  let rest := components "snapshots/rpool_snapshot_b_2026-03-23_04-30-00.zfs.gz"
  have hfirst : ((scheduledFiles (.start :: .start ::
      (List.replicate 11 (.act 0) ++ List.replicate 15 (.act 1)))).map fun t =>
        t.get? (components "backups/b" ++ rest)) = some none := by
    decide +kernel
  have hlast : ((scheduledFiles (.start :: .start ::
      (List.replicate 13 (.act 1) ++ List.replicate 11 (.act 0)))).map fun t =>
        t.get? (components "backups/b" ++ rest)) = some (some (.file [31])) := by
    decide +kernel
  obtain ⟨t, ht, hnone⟩ := Option.map_eq_some_iff.mp hfirst
  obtain ⟨u, hu, hsome⟩ := Option.map_eq_some_iff.mp hlast
  obtain ⟨c, hc, hdone, rfl⟩ := exists_of_scheduledFiles ht
  obtain ⟨d, hd, hdone', rfl⟩ := exists_of_scheduledFiles hu
  have hsame := h.same 2 c 2 d hc hd hdone hdone' ⟨"b", by decide⟩ rest
  have hplace : components "backups/b" =
      sampleSettings.backupBaseDir.locate [] ++ [⟨"b", by decide⟩] := by decide +kernel
  rw [hplace, List.append_assoc] at hnone hsome
  rw [List.singleton_append, hsame] at hnone
  rw [List.singleton_append, hnone] at hsome
  cases hsome

end SrvBackup.Specification
