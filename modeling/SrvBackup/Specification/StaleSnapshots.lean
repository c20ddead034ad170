import SrvBackup.Adapters.Hosts
import SrvBackup.Specification.Transfer
import SrvBackup.Storage.Sweep

/-!
# What the cleanup leaves

The list of stale snapshots is made once, and each `zfs destroy -r` of it also destroys snapshots
that come later in the list. The first one that is gone already fails, and that ends the loop.
So the cleanup is a sweep of the snapshots by the list (`run_cleanupStaleSnapshots`), and it is
complete exactly if the snapshots that no other covers come first.
-/
namespace SrvBackup.Specification

open SrvBackup.Domain SrvBackup.Effects SrvBackup.Storage SrvBackup.Text SrvBackup.Adapters

/-- The stale snapshots, in the order of the listing. -/
def staleSnapshots (host : Host) : List Snapshot := host.snapshots.filter Snapshot.IsStale

/-- The machine after a sweep. -/
def Host.swept (host : Host) (roots : List Snapshot) : Host :=
  { host with snapshots := sweep Snapshot.Covers roots host.snapshots }

section Cleanup

variable {H : Type} [DecidableEq H] {n : Nat} {machine : Option String → H}
  {link : Fin n → Nat → Delivery} {env : Fin n → Env} {i : Fin n} {server : ServerConfig}
  {ssh : Ssh}

/-- The names in the listing are those of the stale snapshots. -/
theorem stdout_list {host : Host} (hproper : ∀ s ∈ host.snapshots, s.Proper) :
    (host.exec .list).1.stdout = unlines ((staleSnapshots host).map Snapshot.name) := by
  have hnames : (host.snapshots.map Snapshot.name).filter
      (fun name => "@pull_backup_".toList <:+: name.toList) =
        (staleSnapshots host).map Snapshot.name := by
    rw [List.filter_map, staleSnapshots]
    congr 1
    exact List.filter_congr fun s hs => decide_eq_decide.mpr (hproper s hs).grep_iff
  simp only [Host.exec, hnames, unlines]

/-- The cleanup reads the names as they are. -/
theorem names_read {snapshots : List Snapshot} (hproper : ∀ s ∈ snapshots, s.Proper) :
    ((splitlines (unlines (snapshots.map Snapshot.name))).map strip).filter (· ≠ "") =
      snapshots.map Snapshot.name := by
  rw [splitlines_unlines]
  · rw [List.map_map, List.filter_eq_self.mpr]
    · exact List.map_congr_left fun s hs => (hproper s hs).trimmed
    · intro name hname
      obtain ⟨s, hs, rfl⟩ := List.mem_map.mp hname
      have hat : '@' ∈ s.name.toList := by simp [s.toList_name]
      simp only [Function.comp_apply, (hproper s hs).trimmed, ne_eq, decide_not,
        Bool.not_eq_eq_eq_not, Bool.not_true, decide_eq_false_iff_not]
      intro hempty
      simp [hempty] at hat
  · intro name hname
    obtain ⟨s, hs, rfl⟩ := List.mem_map.mp hname
    exact (hproper s hs).oneLine

/-- Destroying a snapshot, and everything below it with its tag. -/
theorem run_destroy (machine : Option String → H) (env : Fin n → Env) (server : ServerConfig)
    (ssh : Ssh) (hlink : ∀ k, link i k = .answered) {s : Snapshot} (hs : s.Proper)
    (site : Site H n) :
    ∃ here error, (runCmd server ("zfs destroy -r " ++ s.name) ssh).run
        (siteHandler machine link env i) site =
      (if ∃ t ∈ (site.hosts (machineOf machine server ssh)).snapshots, s.Covers t then .ok ()
        else .error (.sshConnection error),
      ⟨Function.update site.hosts (machineOf machine server ssh)
        ((site.hosts (machineOf machine server ssh)).exec (.destroy s)).2, here⟩) := by
  obtain ⟨here, error, hrun⟩ := run_runOn_site machine env server ssh hlink (ofText?_destroy hs)
    site
  refine ⟨here, error, ?_⟩
  rw [runCmd, Program.bind_eq, Program.run_bind, hrun]
  by_cases hcovers : ∃ t ∈ (site.hosts (machineOf machine server ssh)).snapshots, s.Covers t
  · simp only [Host.exec, if_pos hcovers]
    rfl
  · simp only [Host.exec, if_neg hcovers]
    rfl

/-- The loop sweeps the machine. -/
theorem run_destroyEach (machine : Option String → H) (env : Fin n → Env)
    (server : ServerConfig) (ssh : Ssh) (hlink : ∀ k, link i k = .answered)
    {roots : List Snapshot} (hroots : ∀ s ∈ roots, s.Proper) (site : Site H n) :
    ∃ r here, (Program.forEach (roots.map Snapshot.name) fun snap =>
        runCmd server ("zfs destroy -r " ++ snap) ssh).run (siteHandler machine link env i) site =
      (r, ⟨Function.update site.hosts (machineOf machine server ssh)
        (Host.swept (site.hosts (machineOf machine server ssh)) roots), here⟩) ∧
      (r = .ok () ∨ ∃ text, r = .error (.sshConnection text)) := by
  induction roots generalizing site with
  | nil => exact ⟨.ok (), site.here, by simp [Program.forEach, Host.swept, sweep], .inl rfl⟩
  | cons s roots ih =>
    obtain ⟨here, error, hrun⟩ := run_destroy machine env server ssh hlink (hroots s (by simp)) site
    rw [List.map_cons, Program.forEach, Program.run_bind, hrun]
    by_cases hcovers : ∃ t ∈ (site.hosts (machineOf machine server ssh)).snapshots, s.Covers t
    · obtain ⟨r, here', hloop, hr⟩ := ih (fun t ht => hroots t (by simp [ht]))
        ⟨Function.update site.hosts (machineOf machine server ssh)
          ((site.hosts (machineOf machine server ssh)).exec (.destroy s)).2, here⟩
      refine ⟨r, here', ?_, hr⟩
      simp only [if_pos hcovers, hloop, Function.update_self, Function.update_idem]
      simp only [Host.swept, sweep, Host.exec, if_pos hcovers]
    · refine ⟨_, here, ?_, .inr ⟨error, rfl⟩⟩
      simp only [if_neg hcovers, Host.swept, sweep, Host.exec]

/-- The cleanup sweeps the machine by its stale snapshots. -/
theorem run_cleanupStaleSnapshots (env : Fin n → Env) (hlink : ∀ k, link i k = .answered)
    (site : Site H n)
    (hproper : ∀ s ∈ (site.hosts (machineOf machine server ssh)).snapshots, s.Proper) :
    ∃ here, (cleanupStaleSnapshots server ssh).run (siteHandler machine link env i) site =
      (.ok (), ⟨Function.update site.hosts (machineOf machine server ssh)
        (Host.swept (site.hosts (machineOf machine server ssh))
          (staleSnapshots (site.hosts (machineOf machine server ssh)))), here⟩) := by
  obtain ⟨here, error, hlist⟩ := run_runOn_site machine env server ssh hlink ofText?_list site
  have hstale : ∀ s ∈ staleSnapshots (site.hosts (machineOf machine server ssh)), s.Proper :=
    fun s hs => hproper s (List.mem_of_mem_filter hs)
  have hsame : ((site.hosts (machineOf machine server ssh)).exec .list).2 =
      site.hosts (machineOf machine server ssh) := rfl
  have hstatus : ((site.hosts (machineOf machine server ssh)).exec .list).1.returncode = 0 := rfl
  rw [if_pos hstatus, hsame, Function.update_eq_self] at hlist
  obtain ⟨r, here', hloop, hr⟩ := run_destroyEach machine env server ssh hlink hstale
    ⟨site.hosts, here⟩
  rw [cleanupStaleSnapshots, run_exceptSSH, Program.bind_eq, Program.run_bind, hlist]
  simp only [stdout_list hproper, names_read hstale, hloop]
  rcases hr with rfl | ⟨text, rfl⟩ <;> exact ⟨here', rfl⟩

/-- Where the machine answers every command, the cleanup leaves no stale snapshot exactly if the
listing begins with stale snapshots that do not cover each other and cover all others. -/
theorem cleanup_complete_iff (hlink : ∀ k, link i k = .answered) (site : Site H n)
    (hproper : ∀ s ∈ (site.hosts (machineOf machine server ssh)).snapshots, s.Proper) :
    (∀ s ∈ (((cleanupStaleSnapshots server ssh).run (siteHandler machine link env i) site).2.hosts
        (machineOf machine server ssh)).snapshots, ¬ s.IsStale) ↔
      RootsFirst Snapshot.Covers (staleSnapshots (site.hosts (machineOf machine server ssh))) := by
  obtain ⟨here, hrun⟩ := run_cleanupStaleSnapshots env hlink site hproper
  have hthere : ∀ s ∈ staleSnapshots (site.hosts (machineOf machine server ssh)),
      s ∈ (site.hosts (machineOf machine server ssh)).snapshots :=
    fun s hs => List.mem_of_mem_filter hs
  rw [hrun, ← sweep_complete_iff Snapshot.covers_refl (fun _ _ _ => Snapshot.covers_trans) hthere]
  simp only [Function.update_self, Host.swept]
  constructor
  · exact fun h s hs hleft => h s hleft (by simpa using List.of_mem_filter hs)
  · intro h s hleft hstale
    exact h s (List.mem_filter.mpr ⟨sweep_subset hleft, by simpa using hstale⟩) hleft

end Cleanup

/-- A host with the snapshots, and a run of the cleanup of its only server. -/
def leftoverSite (snapshots : List Snapshot) : Site Unit 1 :=
  ⟨fun _ => ⟨["rpool", "rpool/data", "tank"], snapshots⟩, ⟨∅, fun _ => []⟩⟩

def afterCleanup (snapshots : List Snapshot) : List Snapshot :=
  (((cleanupStaleSnapshots sampleServer sampleSsh).run
    (siteHandler (fun _ => ()) (fun _ _ => .answered) (fun _ => sampleEnv (.ok ⟨0, [], ""⟩)) 0)
    (leftoverSite snapshots)).2.hosts ()).snapshots

/-- Two leftovers of one pool. -/
def poolLeftovers : List Snapshot :=
  [⟨"rpool", "pull_backup_1"⟩, ⟨"rpool", "pull_backup_2"⟩, ⟨"rpool/data", "pull_backup_1"⟩,
    ⟨"rpool/data", "pull_backup_2"⟩]

theorem cleanup_complete_sample :
    (∀ s ∈ poolLeftovers, s.IsStale) ∧ ∀ s ∈ afterCleanup poolLeftovers, ¬ s.IsStale :=
  ⟨by decide +kernel,
    (cleanup_complete_iff (fun _ => rfl) (leftoverSite poolLeftovers) (by decide +kernel)).mpr
      ⟨poolLeftovers.take 2, poolLeftovers.drop 2, rfl, by decide +kernel, by decide +kernel⟩⟩

/-- Leftovers of two pools, in the order of the listing: the one of the second pool stays. -/
theorem cleanup_stops_early :
    afterCleanup [⟨"rpool", "pull_backup_1"⟩, ⟨"rpool/data", "pull_backup_1"⟩,
      ⟨"tank", "pull_backup_1"⟩] = [⟨"tank", "pull_backup_1"⟩] ∧
    ¬ ∀ s ∈ afterCleanup [⟨"rpool", "pull_backup_1"⟩, ⟨"rpool/data", "pull_backup_1"⟩,
      ⟨"tank", "pull_backup_1"⟩], ¬ s.IsStale := by
  have hleft : afterCleanup [⟨"rpool", "pull_backup_1"⟩, ⟨"rpool/data", "pull_backup_1"⟩,
      ⟨"tank", "pull_backup_1"⟩] = [⟨"tank", "pull_backup_1"⟩] := by decide +kernel
  rw [hleft]
  exact ⟨rfl, by decide +kernel⟩

end SrvBackup.Specification
