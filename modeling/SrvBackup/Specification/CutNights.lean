import SrvBackup.Specification.Nights
import SrvBackup.Specification.Success

/-!
# Nights that are cut off

Each night is a run of `backup_all` that can be cut off anywhere, or come to its end, and the next
one starts with the files that it has left, incomplete ones included. However many nights are cut
off, an archive is gone only where the archive of a later night is there and complete
(`archive_gone_for_later_one`).
-/
namespace SrvBackup.Specification

open SrvBackup.Domain SrvBackup.Effects SrvBackup.Storage SrvBackup.Text SrvBackup.Adapters

/-! ## Writing and pruning -/

/-- The other files are as they were, or the own file has been delivered. No other file is new. -/
structure Handover (made : Content → Prop) (d : List Component) (pattern : String) (keep : Int)
    (own : List Component) (t u : Files) : Prop where
  old : ∀ y ∈ archives u d pattern, d ++ [y] ≠ own → y ∈ archives t d pattern
  handed : (∀ x ∈ archives t d pattern, d ++ [x] ≠ own →
    u.content? (d ++ [x]) = t.content? (d ++ [x])) ∨ Delivered made d pattern keep own t u

section Handover

variable {made : Content → Prop} {d : List Component} {pattern : String} {keep : Int}
  {own : List Component} {t u v : Files}

theorem Handover.of_same (h : SameAt (InSeries d pattern) t u) :
    Handover made d pattern keep own t u where
  old _ hy _ := archives_congr h ▸ hy
  handed := .inl fun _ hx _ => h _ (inSeries_of_mem hx)

theorem Handover.after (h : SameAt (InSeries d pattern) t v)
    (hs : Handover made d pattern keep own v u) : Handover made d pattern keep own t u where
  old y hy hown := archives_congr h ▸ hs.old y hy hown
  handed := hs.handed.imp (fun hsame x hx hown =>
    (hsame x ((archives_congr h).symm ▸ hx) hown).trans (h _ (inSeries_of_mem hx)))
      fun hdelivered => hdelivered.after h

theorem Handover.before (hs : Handover made d pattern keep own t v)
    (h : SameAt (InSeries d pattern) v u) (hown : u.content? own = v.content? own) :
    Handover made d pattern keep own t u where
  old y hy := hs.old y (archives_congr h ▸ hy)
  handed := hs.handed.imp (fun hsame x hx hne =>
    (h _ (inSeries_of_mem hx)).trans (hsame x hx hne)) fun hdelivered => hdelivered.before h hown

/-- While the own file is written, and when it could not be. -/
theorem Handover.of_writing (h : SameAt (· ≠ own) t u) : Handover made d pattern keep own t u where
  old y hy hown := by
    obtain ⟨hdot, hmatch, c, hc⟩ := mem_archives.mp hy
    exact mem_archives.mpr ⟨hdot, hmatch, c, (h _ hown).symm.trans hc⟩
  handed := .inl fun _ _ hown => h _ hown

/-- While surplus files are deleted. -/
theorem Handover.of_pruning (hown : SameAt (· ≠ own) t v)
    (hmade : ∃ c, v.content? own = some c ∧ made c)
    (hpruned : SameAt (fun q => ¬ IsSurplus v d pattern keep q) v u) :
    Handover made d pattern keep own t u where
  old y hy hne := by
    have hthere : y ∈ archives v d pattern := by
      by_cases hsurplus : IsSurplus v d pattern keep (d ++ [y])
      · obtain ⟨x, hx, -, heq⟩ := hsurplus
        obtain rfl : y = x := by simpa using heq
        exact hx
      · obtain ⟨hdot, hmatch, c, hc⟩ := mem_archives.mp hy
        exact mem_archives.mpr ⟨hdot, hmatch, c, (hpruned _ hsurplus).symm.trans hc⟩
    exact (Handover.of_writing hown : Handover made d pattern keep own t v).old y hthere hne
  handed := .inr (delivered_pruned hown hmade hpruned)

end Handover

/-- Writing and pruning hand a series over. -/
def handingOver (env : Env) (server : ServerConfig) (settings : BackupSettings) :
    Upkeep env server settings where
  Rel series time := Handover (series.Made env server settings time)
    ((series.dir server settings.backupBaseDir).locate env.cwd) series.pattern
    (series.keep settings) (series.own env.cwd server settings.backupBaseDir time)
  of_same h := .of_same (h.mono fun _ => .inl)
  after h hand := hand.after (h.mono fun _ => .inl)
  before hand h := hand.before (h.mono fun _ => .inl) (h _ (.inr ⟨_, rfl⟩))
  produces := by
    rintro series time _ ⟨write, rfl, hwrite, hmade⟩ w
    have hwriting := always_sameAt (w := w) hwrite rfl
    refine (hwriting.mono fun u hu => Handover.of_writing hu).bind fun _ v hv => ?_
    have hown := hwriting.final
    rw [hv] at hown
    exact ((applyRetention_always env _ _ _ v).mono fun u hu =>
      Handover.of_pruning hown (hmade w v hv) hu).bind_ret fun _ => ()

/-! ## Nights -/

/-- A night: what was asked for, the number of workers, and what each run met. -/
structure CutNight (n : Nat) where
  types : BackupType
  dryRun : Bool
  width : Nat
  env : Fin n → Env

/-- Nights one after the other, each from the files that the one before has left wherever it was
cut off. -/
inductive CutNights (servers : List ServerConfig) (settings : BackupSettings) :
    Files → List (CutNight servers.length) → Files → Prop where
  | none (t : Files) : CutNights servers settings t [] t
  | more {t u : Files} {night : CutNight servers.length} {nights : List (CutNight servers.length)}
      {c : Pool Sys Error BackupResult (Machine servers.length) servers.length} :
      PoolReaches servers settings night.types night.dryRun night.env t night.width c →
      CutNights servers settings c.shared.files nights u →
      CutNights servers settings t (night :: nights) u

section Nights

variable {servers : List ServerConfig} {settings : BackupSettings} {cwd : List Component}
  {i : Fin servers.length} {series : Series} {t u : Files}
  {nights : List (CutNight servers.length)}

/-- The archive that the night has made for server `i` is there and complete. -/
def CutNight.Complete (night : CutNight servers.length) (settings : BackupSettings)
    (i : Fin servers.length) (series : Series) (u : Files) : Prop :=
  ∃ n c, u.content? (series.own (night.env i).cwd (servers.get i) settings.backupBaseDir
      ((night.env i).clock n)) = some c ∧
    series.Made (night.env i) (servers.get i) settings ((night.env i).clock n) c

/-- The clock of server `i` goes on from night to night, and was behind before the first. -/
structure ClockGoesOn (cwd : List Component) (settings : BackupSettings) (i : Fin servers.length)
    (series : Series) (t : Files) (nights : List (CutNight servers.length)) : Prop where
  cwd_eq : ∀ night ∈ nights, ∀ j, (night.env j).cwd = cwd
  year_valid : ∀ night ∈ nights, ∀ n, 1000 ≤ ((night.env i).clock n).year
  increasing : nights.Pairwise fun night night' => ∀ n n',
    ((night.env i).clock n).toSecond < ((night'.env i).clock n').toSecond
  later : ∀ night ∈ nights, ∀ n,
    ∀ name ∈ series.names cwd (servers.get i) settings.backupBaseDir t,
      name < series.filename (servers.get i) ((night.env i).clock n)

/-- The archives of the first night are behind the clocks of the later ones. -/
theorem ClockGoesOn.tail {night : CutNight servers.length} {n : Nat} {x : Component}
    (h : ClockGoesOn cwd settings i series t (night :: nights))
    (hx : x.val = series.filename (servers.get i) ((night.env i).clock n))
    (hold : ∀ y ∈ archives u ((series.dir (servers.get i) settings.backupBaseDir).locate cwd)
      series.pattern, y ≠ x → y ∈ archives t
        ((series.dir (servers.get i) settings.backupBaseDir).locate cwd) series.pattern) :
    ClockGoesOn cwd settings i series u nights where
  cwd_eq night' hnight' := h.cwd_eq night' (List.mem_cons_of_mem _ hnight')
  year_valid night' hnight' := h.year_valid night' (List.mem_cons_of_mem _ hnight')
  increasing := (List.pairwise_cons.mp h.increasing).2
  later night' hnight' n' name hname := by
    obtain ⟨y, hy, rfl⟩ := Finset.mem_image.mp hname
    by_cases hyx : y = x
    · rw [hyx, hx, series.filename_lt_iff _ (h.year_valid night (by simp) n)
        (h.year_valid night' (List.mem_cons_of_mem _ hnight') n')]
      exact (List.pairwise_cons.mp h.increasing).1 night' hnight' n n'
    · exact h.later night' (List.mem_cons_of_mem _ hnight') n' _
        (mem_archiveNames_val.mpr (hold y hy hyx))

/-- However many nights are cut off, and wherever, an archive is still there as it was unless the
archive of a later night is there and complete. -/
theorem archive_gone_for_later_one (hservers : ServersApart servers)
    (hpool : '/' ∉ (servers.get i).zfsPool.toList) (hkeep : 1 ≤ series.keep settings)
    (h : CutNights servers settings t nights u)
    (hclock : ClockGoesOn cwd settings i series t nights)
    {x : Component} (hx : x ∈ archives t
      ((series.dir (servers.get i) settings.backupBaseDir).locate cwd) series.pattern) :
    u.content? ((series.dir (servers.get i) settings.backupBaseDir).locate cwd ++ [x]) =
        t.content? ((series.dir (servers.get i) settings.backupBaseDir).locate cwd ++ [x]) ∨
      ∃ night ∈ nights, night.Complete settings i series u := by
  induction h generalizing x with
  | none t => exact .inl rfl
  | @more t u night nights c hc hrest ih =>
    obtain ⟨dir, -, hdir⟩ := exists_serverDirs hservers.names hservers.distinct
    have hserver : '/' ∉ (servers.get i).name.toList := (hdir i).1 ▸ (dir i).2.2.2
    have hcwd := hclock.cwd_eq night (by simp)
    obtain ⟨n, hand⟩ := pool_upkeep hservers hcwd hc i
      (handingOver (night.env i) (servers.get i) settings) series
    obtain ⟨y, hy, hdot, hmatch, hpath⟩ := series.exists_entry settings.backupBaseDir hserver hpool
      ((night.env i).clock n)
    have hown : series.own (night.env i).cwd (servers.get i) settings.backupBaseDir
        ((night.env i).clock n) =
          (series.dir (servers.get i) settings.backupBaseDir).locate cwd ++ [y] := by
      rw [Series.own, hpath, Path.locate_child _ _ hdot, hcwd i]
    have hnewest : ∀ z ∈ archives t ((series.dir (servers.get i) settings.backupBaseDir).locate cwd)
        series.pattern, z < y := fun z hz =>
      show z.val < y.val from hy ▸ hclock.later night (by simp) n _ (mem_archiveNames_val.mpr hz)
    obtain ⟨hold, hhanded⟩ := hand
    rw [hown, hcwd i] at hold hhanded
    have hclock' := hclock.tail hy fun z hz hne => hold z hz (by simpa using hne)
    have hlater : (∃ night' ∈ nights, night'.Complete settings i series u) →
        ∃ night' ∈ night :: nights, night'.Complete settings i series u := by
      rintro ⟨night', hmem, hcomplete⟩
      exact ⟨night', List.mem_cons_of_mem _ hmem, hcomplete⟩
    rcases hhanded with hsame | hdelivered
    · -- The archive is not the own file, and the night has not got to it.
      have hkept := hsame x hx (by simpa using (hnewest x hx).ne)
      obtain ⟨hdot', hmatch', content, hcontent⟩ := mem_archives.mp hx
      refine (ih hclock' (mem_archives.mpr ⟨hdot', hmatch', content, hkept.trans hcontent⟩)).imp
        (fun h => h.trans hkept) hlater
    · -- From here on the archive of this night is the one to keep.
      obtain ⟨content, hcontent, hmade⟩ := hdelivered.complete hkeep fun z hz z' hz' hlt => by
        obtain rfl : y = z' := by simpa using hz'
        exact lt_asymm hlt (hnewest z hz)
      refine .inr ((ih hclock' (mem_archives.mpr ⟨hdot, hmatch, content, hcontent⟩)).elim
        (fun h => ⟨night, by simp, n, content, ?_, hmade⟩) hlater)
      rw [hown, h, hcontent]

end Nights

def cutNights : List (CutNight apartServers.length) :=
  [⟨.all, false, 2, nightEnvs sampleTime⟩, ⟨.all, false, 2, nightEnvs sampleNextDay⟩]

/-- The archive of the day before. -/
def oldArchive : Component :=
  ⟨"rpool_snapshot_px01_2026-03-22_04-30-00.zfs.gz", by decide⟩

/-- One finished night, and one that is cut off at once. -/
theorem archive_gone_for_later_one_sample :
    ∃ u, CutNights apartServers sampleSettings sampleFiles cutNights u ∧
      (u.content? ((snapshotsDir sampleServer sampleBase).locate [] ++ [oldArchive]) =
          some [31, 139, 8] ∨
        ∃ night ∈ cutNights, night.Complete sampleSettings ⟨0, by decide⟩ .snapshots u) := by
  obtain ⟨c, hc, -⟩ := Pool.exists_complete (h := poolHandler (nightEnvs sampleTime))
    (show 0 < 2 by decide) (c := Pool.initial (backupPool backupSteps apartServers
      (.ok sampleSettings) .all false) ⟨sampleFiles, fun _ => []⟩) (Nat.zero_le _)
  have hnights : CutNights apartServers sampleSettings sampleFiles cutNights c.shared.files :=
    .more hc (.more .refl (.none _))
  have hclock : ClockGoesOn [] sampleSettings ⟨0, by decide⟩ .snapshots sampleFiles cutNights := by
    refine ⟨?_, ?_, List.pairwise_pair.mpr fun _ _ => ?_, ?_⟩
    · rintro _ hnight j
      rcases List.mem_pair.mp hnight with rfl | rfl <;> rfl
    · rintro _ hnight _
      rcases List.mem_pair.mp hnight with rfl | rfl <;> exact (by decide : 1000 ≤ 2026)
    · exact (by decide : sampleTime.toSecond < sampleNextDay.toSecond)
    · have hlater : ∀ time ∈ [sampleTime, sampleNextDay],
          ∀ name ∈ Series.snapshots.names [] sampleServer sampleBase sampleFiles,
            name < Series.snapshots.filename sampleServer time := by decide +kernel
      rintro _ hnight _
      rcases List.mem_pair.mp hnight with rfl | rfl
      · exact hlater sampleTime (by simp)
      · exact hlater sampleNextDay (by simp)
  have hold := archive_gone_for_later_one serversApart_sample (by decide) (by decide) hnights hclock
    (x := oldArchive) (by decide +kernel)
  have hcontent : sampleFiles.content? ((snapshotsDir sampleServer sampleBase).locate [] ++
      [oldArchive]) = some [31, 139, 8] := by decide +kernel
  exact ⟨_, hnights, hold.imp_left fun h => h.trans hcontent⟩

end SrvBackup.Specification
