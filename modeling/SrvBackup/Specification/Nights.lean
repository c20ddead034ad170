import SrvBackup.Specification.Outcomes

/-!
# Nights of backups

Each night is a finished run of `backup_all`, with its own selection, number of workers, schedule
and summary, on the files that the night before has left. After any number of nights the archives
of a server are the latest ones of the nights whose summary reported them
(`nights_keep_reported`).
-/
namespace SrvBackup.Specification

open SrvBackup.Domain SrvBackup.Effects SrvBackup.Storage SrvBackup.Text SrvBackup.Adapters

/-- The local file system refuses nothing, and every streamed command starts. -/
structure Calm (env : Env) : Prop where
  fault : ∀ o, env.fault o = none
  starts : ∀ cmd, ∃ p, env.pipe cmd = .ok p

/-! ## One step -/

section Step

variable {env : Env} {w u : World} {dir : Path} {pattern : String} {x : Component}

/-- Writing a file ends with the file in its directory, or without a change to other files and
without the file unless it was there. -/
inductive WriteEnd (loc : List Component) (w : World) : Except Error Unit × World → Prop where
  | written {c : Content} {u : World} : FileAt w.files loc (some c) u.files →
      u.files.isDir loc.dropLast → WriteEnd loc w (.ok (), u)
  | unchanged {e : Error} {u : World} : SameFiles w.files u.files → WriteEnd loc w (.error e, u)
  | removed {e : Error} {u : World} : FileAt w.files loc none u.files →
      WriteEnd loc w (.error e, u)

theorem writeEnd_of_pipeEnd (hcalm : Calm env) {cmd : Invocation} {failed exited : String}
    {path : Path} {r : Except Error Unit × World}
    (h : PipeEnd env cmd failed exited path w r) : WriteEnd (path.locate env.cwd) w r := by
  cases h with
  | refused e u _ hsame _ => exact .unchanged hsame
  | notStarted e u hstart _ =>
    obtain ⟨p, hp⟩ := hcalm.starts cmd
    rw [hp] at hstart
    cases hstart
  | removed p u _ _ _ hgone => exact .removed hgone
  | stuck p e r u _ _ hfault _ =>
    rw [hcalm.fault] at hfault
    cases hfault
  | written p u _ _ hdir hfile => exact .written hfile hdir

/-- Writing a new file and pruning: the files rotate, or an exception leaves them as they were. -/
theorem write_prune_rotates (keep : Int) (hcalm : Calm env) {write : Prog Unit}
    (hdot : x.val ≠ "..") (hmatch : Glob.fnmatch x.val pattern)
    (hnew : x.val ∉ archiveNames w.files (dir.locate env.cwd) pattern)
    (hwrite : WriteEnd (dir.locate env.cwd ++ [x]) w (write.run env.handler w)) :
    ∃ r u, (write.bind fun _ => (applyRetention dir pattern keep).bind fun _ => pure ()).run
        env.handler w = (r, u) ∧
      archiveNames u.files (dir.locate env.cwd) pattern =
        if r.isOk then
          newest keep.toNat (insert x.val (archiveNames w.files (dir.locate env.cwd) pattern))
        else archiveNames w.files (dir.locate env.cwd) pattern := by
  generalize hrun : write.run env.handler w = result at hwrite
  cases hwrite with
  | @written c v hfile hdir =>
    obtain ⟨deleted, u, hret, hend⟩ := applyRetention_returns hcalm.fault dir pattern keep v
    rw [List.dropLast_concat] at hdir
    refine ⟨.ok (), u, ?_, ?_⟩
    · rw [Program.run_bind_ok hrun, Program.run_bind_ok hret]
      rfl
    · rw [hend.archiveNames_eq hdir, archiveNames_fileAt hfile hdot hmatch]
      rfl
  | @unchanged e v hsame =>
    exact ⟨.error e, v, Program.run_bind_error hrun _, archiveNames_congr fun y _ => hsame _⟩
  | @removed e v hgone =>
    refine ⟨.error e, v, Program.run_bind_error hrun _, archiveNames_congr fun y hy => ?_⟩
    rw [hgone]
    split
    · next hyx =>
      obtain rfl : y = x := by simpa using hyx
      refine (Option.eq_none_iff_forall_ne_some.mpr fun c hc => hnew ?_).symm
      exact mem_archiveNames_val.mpr (mem_archives.mpr ⟨hdot, hmatch, c, hc⟩)
    · rfl

theorem configTransfer_writes (hcalm : Calm env) (server : ServerConfig) (backupDir : Path)
    (configPaths excludePatterns : List String) (ssh : Ssh) (timestamp : String) (w : World) :
    WriteEnd ((configPath server backupDir timestamp).locate env.cwd) w
      ((configTransfer server backupDir configPaths excludePatterns ssh timestamp).run
        env.handler w) := by
  obtain ⟨failed, exited, r, u, r', u', hpipe, hrun, hfiles, hcases⟩ := configTransfer_end env
    server backupDir configPaths excludePatterns ssh timestamp w
  have hwrite := writeEnd_of_pipeEnd hcalm hpipe
  rw [hrun]
  obtain ⟨e, rfl, rfl, rfl⟩ | ⟨rfl, hstat⟩ := hcases
  · exact hwrite
  · cases hwrite with
    | written hfile hdir =>
      rcases hstat with rfl | ⟨e, -, hfault | hnone⟩
      · exact .written (hfiles ▸ hfile) (hfiles ▸ hdir)
      · exact absurd (hcalm.fault _) hfault
      · rw [hfile, if_pos rfl] at hnone
        cases hnone

theorem WriteEnd.mapError {loc : List Component} {e e' : Error}
    (h : WriteEnd loc w (.error e, u)) : WriteEnd loc w (.error e', u) := by
  cases h with
  | unchanged hsame => exact .unchanged hsame
  | removed hgone => exact .removed hgone

theorem WriteEnd.of_files {loc : List Component} {r : Except Error Unit} {w' u' : World}
    (h : WriteEnd loc w (r, u)) (hw : w.files = w'.files) (hu : u'.files = u.files) :
    WriteEnd loc w' (r, u') := by
  cases h with
  | written hfile hdir => exact .written (hw ▸ hu ▸ hfile) (hu ▸ hdir)
  | unchanged hsame => exact .unchanged (hw ▸ hu ▸ hsame)
  | removed hgone => exact .removed (hw ▸ hu ▸ hgone)

theorem sendArchive_writes (hcalm : Calm env) (server : ServerConfig) (backupDir : Path) (ssh : Ssh)
    (timestamp : String) (w : World) :
    WriteEnd ((snapshotPath server backupDir timestamp).locate env.cwd) w
      ((sendArchive server backupDir ssh timestamp).run env.handler w) := by
  obtain ⟨failed, exited, hpipe⟩ := exists_pipeToFile_eq server (sendCmd server timestamp)
    (snapshotPath server backupDir timestamp) ssh
  have hwrite := writeEnd_of_pipeEnd hcalm (pipeToFile_end env (pipeInvocation server
    (sendCmd server timestamp) ssh) failed exited (snapshotPath server backupDir timestamp) w)
  simp only [sendArchive, pipeCmd, hpipe, Program.bind_eq]
  rw [Program.run_bind, run_exceptSSH]
  generalize (pipeToFile _ failed exited _).run env.handler w = r at hwrite ⊢
  obtain ⟨e | _, u⟩ := r
  · cases e <;> exact hwrite.mapError
  · obtain ⟨r', u', hrun, hfiles, hr'⟩ :=
      stat_end env (snapshotPath server backupDir timestamp) u
    simp only [hrun]
    rcases hr' with rfl | ⟨e, -, hfault | hnone⟩
    · exact hwrite.of_files rfl hfiles
    · exact absurd (hcalm.fault _) hfault
    · cases hwrite with
      | written hfile _ =>
        rw [hfile, if_pos rfl] at hnone
        cases hnone

theorem zfsTransfer_writes (hcalm : Calm env) (server : ServerConfig) (backupDir : Path) (ssh : Ssh)
    (timestamp : String) (w : World) :
    WriteEnd ((snapshotPath server backupDir timestamp).locate env.cwd) w
      ((zfsTransfer server backupDir ssh timestamp).run env.handler w) := by
  simp only [zfsTransfer, Program.bind_eq, Program.run_bind]
  have hclean := (run_of_runsCommand (p := cleanupStaleSnapshots server ssh)
    (cleanupStaleSnapshots_performs fun _ => ⟨_, rfl⟩) env w).1
  generalize (cleanupStaleSnapshots server ssh).run env.handler w = r₁ at hclean ⊢
  obtain ⟨e | _, w₁⟩ := r₁
  · exact .unchanged fun q => by rw [hclean]
  simp only
  have hcreate := (run_of_runsCommand (performs_exceptSSH
    (p := runCmd server ("zfs snapshot -r " ++ fullSnapshot server timestamp) ssh)
    (runCmd_performs ⟨_, rfl⟩)
    fun text => Program.performs_raise
      (.snapshot ("Snapshot creation failed on " ++ server.name ++ ": " ++ text))) env w₁).1
  generalize (exceptSSH (runCmd server ("zfs snapshot -r " ++ fullSnapshot server timestamp) ssh)
    _).run env.handler w₁ = r₂ at hcreate ⊢
  have hfiles := hcreate.trans hclean
  obtain ⟨e | _, v⟩ := r₂
  · exact .unchanged fun q => by rw [hfiles]
  have hsend := sendArchive_writes hcalm server backupDir ssh timestamp v
  simp only [Program.run_finallyDo]
  generalize (sendArchive server backupDir ssh timestamp).run env.handler v = r₃ at hsend ⊢
  obtain ⟨u, hu, hkeep, -⟩ := runIgnored_end env server
    ("zfs destroy -r " ++ fullSnapshot server timestamp) ssh r₃.2
  rw [hu]
  exact hsend.of_files hfiles hkeep

end Step

/-! ## The run of a server -/

namespace Series

/-- The name that the file of a run gets. -/
def filename (server : ServerConfig) (time : DateTime) : Series → String
  | .configs kind => kind.filename server.name time
  | .snapshots => buildSnapshotFilename server.name server.zfsPool (buildTimestamp time)

/-- The names of the files of the series. -/
def names (cwd : List Component) (server : ServerConfig) (backupDir : Path) (t : Files)
    (series : Series) : Finset String :=
  archiveNames t ((series.dir server backupDir).locate cwd) series.pattern

theorem exists_entry {server : ServerConfig} (backupDir : Path) (hserver : '/' ∉ server.name.toList)
    (hpool : '/' ∉ server.zfsPool.toList) (series : Series) (time : DateTime) :
    ∃ x : Component, x.val = series.filename server time ∧ x.val ≠ ".." ∧
      Glob.fnmatch x.val series.pattern ∧
        series.path server backupDir time = (series.dir server backupDir).child x := by
  cases series with
  | configs kind =>
    obtain ⟨x, hx, hdot⟩ := kind.exists_entry hserver time
    exact ⟨x, hx, hdot, hx ▸ kind.fnmatch_filename _ _, by rw [path, dir, ← hx, Path.div_val]⟩
  | snapshots =>
    obtain ⟨x, hx, hdot⟩ := exists_archive_entry hserver hpool time
    exact ⟨x, hx, hdot, hx ▸ fnmatch_buildSnapshotFilename _ _ _, by
      rw [path, dir, snapshotPath, ← hx, Path.div_val]⟩

theorem filename_lt_iff (server : ServerConfig) {time time' : DateTime} (h : 1000 ≤ time.year)
    (h' : 1000 ≤ time'.year) (series : Series) :
    series.filename server time < series.filename server time' ↔
      time.toSecond < time'.toSecond := by
  cases series with
  | configs kind => exact kind.filename_lt_iff server.name h h'
  | snapshots =>
    rw [filename, filename, buildSnapshotFilename_eq_stamped, buildSnapshotFilename_eq_stamped,
      stamped_lt_iff _ _ h h']

end Series

section Server

variable {env : Env} {server : ServerConfig} {settings : BackupSettings} {series : Series}
  {dryRun : Bool}

/-- No clock reading gives the name of a file that is there. -/
def Fresh (env : Env) (server : ServerConfig) (settings : BackupSettings) (series : Series)
    (t : Files) : Prop :=
  ∀ n, series.filename server (env.clock n) ∉ series.names env.cwd server settings.backupBaseDir t

/-- The series has got the file of one clock reading and has rotated, or it is as it was. -/
def Turns (env : Env) (server : ServerConfig) (settings : BackupSettings) (series : Series)
    (turned : Bool) (t u : Files) : Prop :=
  ∃ n, series.names env.cwd server settings.backupBaseDir u =
    if turned then newest (series.keep settings).toNat
      (insert (series.filename server (env.clock n))
        (series.names env.cwd server settings.backupBaseDir t))
    else series.names env.cwd server settings.backupBaseDir t

theorem Series.names_congr {t u : Files}
    (h : SameAt (series.Holds env.cwd server settings.backupBaseDir) t u) :
    series.names env.cwd server settings.backupBaseDir u =
      series.names env.cwd server settings.backupBaseDir t :=
  archiveNames_congr fun x hx => h _ (.inl ⟨x, hx, rfl⟩)

/-- What a step makes of the names of its series, if no clock reading gives an old name. -/
def turning (env : Env) (server : ServerConfig) (settings : BackupSettings) (series : Series) :
    Outcome (series.Holds env.cwd server settings.backupBaseDir) where
  Pre := Fresh env server settings series
  Rel := Turns env server settings series
  pre_congr h hfresh n := by
    rw [series.names_congr h]
    exact hfresh n
  none _ := ⟨0, rfl⟩
  after h := by
    rintro ⟨n, hn⟩
    exact ⟨n, by rw [← series.names_congr h, hn]⟩
  before := by
    rintro _ _ _ _ ⟨n, hn⟩ h
    exact ⟨n, by rw [series.names_congr h, hn]⟩

theorem turning_now (hcalm : Calm env) (hserver : '/' ∉ server.name.toList)
    (hpool : '/' ∉ server.zfsPool.toList) {write : DateTime → Prog Unit}
    (hwrite : ∀ t w, WriteEnd (series.own env.cwd server settings.backupBaseDir t) w
      ((write t).run env.handler w)) :
    (turning env server settings series).OfStep env false (now.bind fun t => (write t).bind fun _ =>
      (applyRetention (series.dir server settings.backupBaseDir) series.pattern
        (series.keep settings)).bind fun _ => pure ()) := by
  refine Outcome.ofStep_now fun n w hfresh => ?_
  generalize ht : env.clock n = t
  obtain ⟨x, hx, hdot, hmatch, hpath⟩ := series.exists_entry settings.backupBaseDir hserver hpool t
  have hnew : x.val ∉ archiveNames w.files
      ((series.dir server settings.backupBaseDir).locate env.cwd) series.pattern := by
    rw [hx, ← ht]
    exact hfresh n
  have hloc : series.own env.cwd server settings.backupBaseDir t =
      (series.dir server settings.backupBaseDir).locate env.cwd ++ [x] := by
    rw [Series.own, hpath, Path.locate_child _ _ hdot]
  obtain ⟨r, u, hrun, hnames⟩ := write_prune_rotates (series.keep settings) hcalm hdot hmatch hnew
    (hloc ▸ hwrite t w)
  rw [hrun]
  exact ⟨n, by rw [ht, ← hx]; exact hnames⟩

/-- The step of an archived series turns it. -/
theorem step_turning (hcalm : Calm env) (hserver : '/' ∉ server.name.toList)
    (hpool : '/' ∉ server.zfsPool.toList) (harchived : series.Archived) :
    (turning env server settings series).OfStep env dryRun
      (series.step server settings dryRun) := by
  cases dryRun with
  | true => cases harchived <;> exact Outcome.ofStep_dryRun
  | false =>
    cases harchived with
    | config =>
      simp only [Series.step, backupSteps, backupConfig_eq]
      exact turning_now hcalm hserver hpool fun t =>
        configTransfer_writes hcalm server settings.backupBaseDir settings.configPaths
          settings.excludePatterns (sshFor server settings) (buildTimestamp t)
    | snapshots =>
      simp only [Series.step, backupSteps, backupZfs_eq]
      exact turning_now hcalm hserver hpool fun t =>
        zfsTransfer_writes hcalm server settings.backupBaseDir (sshFor server settings)
          (buildTimestamp t)

end Server

/-! ## Nights -/

/-- A night: what was asked for, what each run met, and the summary. -/
structure Night (n : Nat) where
  types : BackupType
  dryRun : Bool
  maxParallel : Int
  env : Fin n → Env
  summary : BackupSummary

/-- Nights one after the other, and the files that they leave. -/
inductive Nights (servers : List ServerConfig) (settings : BackupSettings) (start : Files) :
    List (Night servers.length) → Files → Prop where
  | none : Nights servers settings start [] start
  | more {nights : List (Night servers.length)} {t : Files} {night : Night servers.length}
      {m : Machine servers.length} : Nights servers settings start nights t →
      BackupAllEnds backupSteps servers (.ok settings) night.types night.maxParallel night.dryRun
        night.env t (.ok night.summary) m →
      Nights servers settings start (nights ++ [night]) m.files

/-- The summary says that the server's step succeeded, and it was attempted in earnest. -/
def Night.reported {n : Nat} (night : Night n) (server : ServerConfig) (series : Series) : Bool :=
  !night.dryRun && series.attempted night.types server &&
    night.summary.results.any fun r => r.server = server.name && series.okIn r

/-- The names that the files of the reported nights got. -/
def reportedNames {n : Nat} (server : ServerConfig) (series : Series) (nights : List (Night n))
    (times : List DateTime) : List String :=
  ((nights.zip times).filter fun p => p.1.reported server series).map fun p =>
    series.filename server p.2

/-- For server `i` the nights are calm, and its clock goes on from night to night. -/
structure Regular {n : Nat} (cwd : List Component) (i : Fin n) (nights : List (Night n)) :
    Prop where
  cwd_eq : ∀ night ∈ nights, ∀ j, (night.env j).cwd = cwd
  calm : ∀ night ∈ nights, Calm (night.env i)
  year_valid : ∀ night ∈ nights, ∀ n, 1000 ≤ ((night.env i).clock n).year
  increasing : nights.Pairwise fun night night' => ∀ n n',
    ((night.env i).clock n).toSecond < ((night'.env i).clock n').toSecond

section Nights

variable {servers : List ServerConfig} {settings : BackupSettings} {cwd : List Component}
  {i : Fin servers.length} {series : Series} {start t : Files}
  {nights : List (Night servers.length)}

/-- A night turns each archived series of a calm server just as its summary says. -/
theorem night_turns (hservers : ServersApart servers)
    (hpool : '/' ∉ (servers.get i).zfsPool.toList) (harchived : series.Archived)
    {night : Night servers.length} (hcwd : ∀ j, (night.env j).cwd = cwd)
    (hcalm : Calm (night.env i)) (hfresh : Fresh (night.env i) (servers.get i) settings series t)
    {m : Machine servers.length}
    (h : BackupAllEnds backupSteps servers (.ok settings) night.types night.maxParallel
      night.dryRun night.env t (.ok night.summary) m) :
    Turns (night.env i) (servers.get i) settings series
      (night.reported (servers.get i) series) t m.files := by
  obtain ⟨dir, -, hdir⟩ := exists_serverDirs hservers.names hservers.distinct
  have hserver : '/' ∉ (servers.get i).name.toList := (hdir i).1 ▸ (dir i).2.2.2
  obtain ⟨r, hr, hname, -, hturns⟩ := backupAll_outcome
    (turning (night.env i) (servers.get i) settings series) hservers
    (fun j => (hcwd j).trans (hcwd i).symm) harchived (step_turning hcalm hserver hpool harchived)
    hfresh h
  have hdistinct : (night.summary.results.map (·.server)).Nodup :=
    (servers_perm h).nodup_iff.mpr hservers.distinct
  have hreported : (night.summary.results.any fun r =>
      r.server = (servers.get i).name && series.okIn r) = series.okIn r := by
    rw [Bool.eq_iff_iff, List.any_eq_true]
    simp only [Bool.and_eq_true, decide_eq_true_eq]
    constructor
    · rintro ⟨r', hr', hname', hok⟩
      obtain rfl := List.inj_on_of_nodup_map hdistinct hr' hr (hname'.trans hname.symm)
      exact hok
    · exact fun hok => ⟨r, hr, hname, hok⟩
  rw [Night.reported, hreported]
  exact hturns

theorem reportedNames_concat {n : Nat} (server : ServerConfig) (series : Series)
    {nights : List (Night n)} {times : List DateTime} (hlength : nights.length = times.length)
    (night : Night n) (time : DateTime) :
    reportedNames server series (nights ++ [night]) (times ++ [time]) =
      reportedNames server series nights times ++
        if night.reported server series then [series.filename server time] else [] := by
  unfold reportedNames
  rw [List.zip_append hlength, List.filter_append, List.map_append]
  split <;> simp_all

/-- The archives after some nights, with the clock reading at which each night made its own. -/
theorem nights_rotate (hservers : ServersApart servers)
    (hpool : '/' ∉ (servers.get i).zfsPool.toList) (harchived : series.Archived)
    (hempty : series.names cwd (servers.get i) settings.backupBaseDir start = ∅)
    (h : Nights servers settings start nights t) (hregular : Regular cwd i nights) :
    ∃ times : List DateTime,
      List.Forall₂ (fun night time => ∃ n, time = (night.env i).clock n) nights times ∧
      (reportedNames (servers.get i) series nights times).Pairwise (· < ·) ∧
      series.names cwd (servers.get i) settings.backupBaseDir t =
        rotated (series.keep settings).toNat
          (reportedNames (servers.get i) series nights times) := by
  induction h with
  | none => exact ⟨[], .nil, .nil, hempty⟩
  | @more nights t night m hnights hends ih =>
    have hearlier : Regular cwd i nights :=
      ⟨fun n hn => hregular.cwd_eq n (by simp [hn]), fun n hn => hregular.calm n (by simp [hn]),
        fun n hn => hregular.year_valid n (by simp [hn]),
        hregular.increasing.sublist (List.sublist_append_left nights [night])⟩
    obtain ⟨times, htimes, hsorted, hrotated⟩ := ih hearlier
    have hlater : ∀ n, ∀ name ∈ reportedNames (servers.get i) series nights times,
        name < series.filename (servers.get i) ((night.env i).clock n) := by
      intro n name hname
      obtain ⟨⟨night', time⟩, hmem, rfl⟩ := List.mem_map.mp hname
      have hzip := List.mem_of_mem_filter hmem
      obtain ⟨k, rfl⟩ : ∃ k, time = (night'.env i).clock k :=
        (List.forall₂_iff_zip.mp htimes).2 hzip
      have hnight' := (List.of_mem_zip hzip).1
      refine (series.filename_lt_iff _ (hearlier.year_valid night' hnight' k)
        (hregular.year_valid night (by simp) n)).mpr ?_
      exact (List.pairwise_append.mp hregular.increasing).2.2 night' hnight' night (by simp) k n
    have hcwd := hregular.cwd_eq night (by simp)
    have hfresh : Fresh (night.env i) (servers.get i) settings series t := by
      intro n hold
      rw [hcwd i, hrotated] at hold
      exact lt_irrefl _ (hlater n _ (mem_of_mem_rotated hold))
    obtain ⟨n, hn⟩ := night_turns hservers hpool harchived hcwd (hregular.calm night (by simp))
      hfresh hends
    rw [hcwd i, hrotated] at hn
    refine ⟨times ++ [(night.env i).clock n], List.rel_append htimes (.cons ⟨n, rfl⟩ .nil), ?_⟩
    rw [reportedNames_concat _ _ htimes.length_eq, hn]
    split
    · refine ⟨List.pairwise_append.mpr ⟨hsorted, List.pairwise_singleton _ _, ?_⟩, ?_⟩
      · intro name hname name' hname'
        rw [List.mem_singleton.mp hname']
        exact hlater n name hname
      · rw [rotated_concat]
    · rw [List.append_nil]
      exact ⟨hsorted, rfl⟩

/-- After any number of nights, whatever they were asked for, whatever failed in them and however
their pools were scheduled, the archives of a calm server are exactly the latest ones of those that
the summaries reported, one for each reported night. -/
theorem nights_keep_reported (hservers : ServersApart servers)
    (hpool : '/' ∉ (servers.get i).zfsPool.toList) (harchived : series.Archived)
    (hkeep : 1 ≤ series.keep settings)
    (hempty : series.names cwd (servers.get i) settings.backupBaseDir start = ∅)
    (h : Nights servers settings start nights t) (hregular : Regular cwd i nights) :
    ∃ times : List DateTime,
      List.Forall₂ (fun night time => ∃ n, time = (night.env i).clock n) nights times ∧
      KeepsLatest (series.keep settings).toNat
        (reportedNames (servers.get i) series nights times)
        (series.names cwd (servers.get i) settings.backupBaseDir t) := by
  obtain ⟨times, htimes, hsorted, hrotated⟩ :=
    nights_rotate hservers hpool harchived hempty h hregular
  have hcount : 1 ≤ (series.keep settings).toNat := by omega
  have hnodup := hsorted.imp fun h => h.ne
  refine ⟨times, htimes, ?_⟩
  rw [hrotated, keepsLatest_iff hnodup]
  exact (rotated_eq_latest_iff hcount hnodup).mpr (surplusFirst_of_increasing hsorted) _
    (List.prefix_refl _)

end Nights

/-- The environments of a night. -/
def nightEnvs (time : DateTime) (_ : Fin apartServers.length) : Env :=
  { sampleEnv (.ok ⟨0, [31], ""⟩) with clock := fun _ => time }

/-- Two nights, with one archive to keep. -/
theorem nights_keep_reported_sample :
    ∃ nights t times, Nights apartServers sampleSettings ∅ nights t ∧ nights.length = 2 ∧
      KeepsLatest 1 (reportedNames sampleServer .snapshots nights times)
        (Series.snapshots.names [] sampleServer sampleBase t) := by
  have hnight : ∀ (envs : Fin apartServers.length → Env) (t : Files), ∃ summary m,
      BackupAllEnds backupSteps apartServers (.ok sampleSettings) .all 2 false envs t
        (.ok summary) m := by
    intro envs t
    have hstart : Pool.Reaches (poolHandler envs) (2 : Int).toNat
        (backupStart backupSteps apartServers (.ok sampleSettings) .all false t) _ := .refl
    obtain ⟨d, summary, -, hends, -⟩ := exists_backupAllEnds (show (0 : Int) < 2 by decide) hstart
    exact ⟨summary, _, hends⟩
  obtain ⟨summary, m, hfirst⟩ := hnight (nightEnvs sampleTime) ∅
  obtain ⟨summary', m', hsecond⟩ := hnight (nightEnvs sampleNextDay) m.files
  have hnights : Nights apartServers sampleSettings ∅
      [⟨.all, false, 2, nightEnvs sampleTime, summary⟩,
        ⟨.all, false, 2, nightEnvs sampleNextDay, summary'⟩] m'.files :=
    .more (.more .none hfirst) hsecond
  have hregular : Regular (n := apartServers.length) [] ⟨0, by decide⟩
      [⟨.all, false, 2, nightEnvs sampleTime, summary⟩,
        ⟨.all, false, 2, nightEnvs sampleNextDay, summary'⟩] := by
    refine ⟨?_, ?_, ?_, List.pairwise_pair.mpr fun _ _ => ?_⟩
    · rintro _ hnight j
      rcases List.mem_pair.mp hnight with rfl | rfl <;> rfl
    · rintro _ hnight
      rcases List.mem_pair.mp hnight with rfl | rfl <;> exact ⟨fun _ => rfl, fun _ => ⟨_, rfl⟩⟩
    · rintro _ hnight _
      rcases List.mem_pair.mp hnight with rfl | rfl <;> exact (by decide : 1000 ≤ 2026)
    · exact (by decide : sampleTime.toSecond < sampleNextDay.toSecond)
  obtain ⟨times, -, hkeeps⟩ := nights_keep_reported serversApart_sample (by decide) .snapshots
    (by decide) (by decide +kernel) hnights hregular
  exact ⟨_, _, times, hnights, rfl, hkeeps⟩

end SrvBackup.Specification
