import SrvBackup.Specification.Transfer
import SrvBackup.Adapters.PackagesBackup

/-!
# Histories of the configs directory

Three kinds of file share one directory: configuration archives and two package lists. A history
is a list of runs of `backupConfig` and `backupPackages` whose commands end in any way.
`ConfigsRun.names_exec` says what one run does to each kind, `ConfigsRun.names_after` what a
history does, and `ConfigsRun.kinds_keep_latest` that each kind keeps its latest files.
-/
namespace SrvBackup.Specification

open SrvBackup.Domain SrvBackup.Effects SrvBackup.Storage SrvBackup.Text SrvBackup.Adapters

/-- The kinds of file in a configs directory. -/
inductive Kind where
  | config
  | selections
  | list
  deriving DecidableEq, Repr

namespace Kind

/-- What the names of a kind begin with. -/
def pre : Kind → String
  | .config => "backup_config_"
  | .selections => "packages_selections_"
  | .list => "packages_list_"

/-- What the names of a kind end with. -/
def post : Kind → String
  | .config => ".tar.gz"
  | .selections | .list => ".txt"

/-- The pattern that retention uses for a kind. -/
def pattern : Kind → String
  | .config => "backup_config_*.tar.gz"
  | .selections => "packages_selections_*.txt"
  | .list => "packages_list_*.txt"

/-- The name that a kind gets on a server at a time. -/
def filename (server : String) (time : DateTime) : Kind → String
  | .config => buildConfigFilename server (buildTimestamp time)
  | .selections => buildPackagesFilename server (buildTimestamp time) "selections"
  | .list => buildPackagesFilename server (buildTimestamp time) "list"

theorem filename_eq_stamped (server : String) (time : DateTime) (kind : Kind) :
    kind.filename server time = stamped (kind.pre ++ server ++ "_") kind.post
      (buildTimestamp time) := by
  cases kind <;> rfl

theorem fnmatch_pattern (kind : Kind) (name : String) :
    Glob.fnmatch name kind.pattern ↔
      ∃ middle, name.toList = kind.pre.toList ++ middle ++ kind.post.toList := by
  have htokens : Glob.tokens kind.pattern =
      Glob.literals kind.pre ++ .star :: Glob.literals kind.post := by
    cases kind <;> decide
  rw [Glob.fnmatch, htokens, Glob.accepts_between]

theorem fnmatch_filename (server : String) (time : DateTime) (kind : Kind) :
    Glob.fnmatch (kind.filename server time) kind.pattern := by
  rw [fnmatch_pattern, filename_eq_stamped]
  exact ⟨server.toList ++ "_".toList ++ (buildTimestamp time).toList, by simp [stamped]⟩

/-- No name is of two kinds. -/
theorem eq_of_fnmatch {kind kind' : Kind} {name : String} (h : Glob.fnmatch name kind.pattern)
    (h' : Glob.fnmatch name kind'.pattern) : kind = kind' := by
  obtain ⟨middle, hm⟩ := (fnmatch_pattern kind name).mp h
  obtain ⟨middle', hm'⟩ := (fnmatch_pattern kind' name).mp h'
  have hstart : kind.pre.toList.take 10 = kind'.pre.toList.take 10 := by
    have hlen : ∀ k : Kind, 10 ≤ k.pre.toList.length := by
      intro k
      cases k <;> decide
    have htake := congrArg (List.take 10) (hm.symm.trans hm')
    rwa [List.append_assoc, List.append_assoc, List.take_append_of_le_length (hlen kind),
      List.take_append_of_le_length (hlen kind')] at htake
  revert hstart
  cases kind <;> cases kind' <;> decide

theorem exists_entry {server : String} (hserver : '/' ∉ server.toList) (time : DateTime)
    (kind : Kind) : ∃ x : Component, x.val = kind.filename server time ∧ x.val ≠ ".." := by
  rw [filename_eq_stamped]
  apply exists_component
  · apply slash_notMem_stamped
    · cases kind <;> simp [pre, hserver]
    · cases kind <;> decide
  · cases kind <;> simp [stamped, pre, post]

theorem filename_lt_iff (server : String) {time time' : DateTime} (h : 1000 ≤ time.year)
    (h' : 1000 ≤ time'.year) (kind : Kind) :
    kind.filename server time < kind.filename server time' ↔ time.toSecond < time'.toSecond := by
  rw [filename_eq_stamped, filename_eq_stamped, stamped_lt_iff _ _ h h']

end Kind

/-! ## The directory -/

/-- Nothing stands in the way of making the directory `d` and files in it. -/
structure Ready (d : List Component) (t : Files) : Prop where
  noFile : ∀ q ∈ FileTree.lineage d, t.content? q = none
  noDir : ∀ x, t.get? (d ++ [x]) ≠ some .dir

/-- The operations that make files in `d` only. -/
def MakesIn (cwd d : List Component) : Op → Prop
  | .mkdir path => path.locate cwd = d
  | .openWrite path | .popen _ path | .writeText path _ => ∃ x, path.locate cwd = d ++ [x]
  | _ => True

namespace Ready

variable {d : List Component} {t : Files}

theorem ne_child {q : List Component} (hq : q ∈ FileTree.lineage d) (x : Component) :
    q ≠ d ++ [x] := by
  rintro rfl
  have := (FileTree.mem_lineage.mp hq).2.length_le
  simp at this

theorem set (h : Ready d t) (x : Component) (c : Content) :
    Ready d (t.set (d ++ [x]) (.file c)) where
  noFile q hq := by
    rw [FileTree.content?_set, if_neg (ne_child hq x), h.noFile q hq]
  noDir y := by
    rw [FileTree.get?_set]
    split
    · simp
    · exact h.noDir y

theorem remove (h : Ready d t) (q : List Component) : Ready d (t.remove q) where
  noFile p hp := by
    rw [FileTree.content?_remove, h.noFile p hp, ite_self]
  noDir y := by
    rw [FileTree.get?_remove]
    split
    · simp
    · exact h.noDir y

theorem mkdirs (h : Ready d t) {u : Files} (hu : t.mkdirs d = some u) : Ready d u where
  noFile q hq := by rw [FileTree.content?_mkdirs hu, h.noFile q hq]
  noDir y := by
    rw [FileTree.get?_mkdirs hu, if_neg fun hy => ne_child hy y rfl]
    exact h.noDir y

/-- A file can be opened for writing in a directory that was just made. -/
theorem create (h : Ready d t) {u : Files} (hu : t.mkdirs d = some u) (x : Component)
    (c : Content) : u.create (d ++ [x]) c = some (u.set (d ++ [x]) (.file c)) := by
  apply FileTree.create_of_isDir
  · rw [List.dropLast_concat]
    exact FileTree.isDir_mkdirs hu
  · have hno := (h.mkdirs hu).noDir x
    rw [Bool.eq_false_iff, ne_eq, FileTree.isDir_iff]
    simp [hno]

theorem act {env : Env} {o : Op} {w : World} (ho : MakesIn env.cwd d o) (h : Ready d w.files) :
    Ready d (env.handler o w).2.files := by
  have hupdate : ∀ (fault : Option OSError) (e : OSError) (new : Option Files),
      (∀ u, new = some u → Ready d u) → Ready d (Env.update fault e new w.files).2 := by
    intro fault e new hnew
    rcases Env.update_cases fault e new w.files with ⟨_, -, heq⟩ | ⟨u, -, hu, heq⟩
    · rw [heq]
      exact h
    · rw [heq]
      exact hnew u hu
  cases o with
  | mkdir path =>
    refine hupdate _ _ _ fun u hu => ?_
    rw [show path.locate env.cwd = d from ho] at hu
    exact h.mkdirs hu
  | openWrite path | writeText path text =>
    refine hupdate _ _ _ fun u hu => ?_
    obtain ⟨x, hx⟩ := ho
    rw [(FileTree.create_eq_some hu).2, hx]
    exact h.set x _
  | unlink path =>
    refine hupdate _ _ _ fun u hu => ?_
    simp only [Env.unlinked] at hu
    split at hu
    · cases hu
      exact h.remove _
    · cases hu
  | popen cmd path =>
    obtain ⟨x, hx⟩ := ho
    simp only [Env.handler, Env.act, World.record]
    split
    · rw [hx]
      exact h.set x _
    · exact h
  | stat path => simpa only [Env.handler, World.record, Env.act_stat_files] using h
  | _ => exact h

/-- A program that makes files in the directory only keeps it ready. -/
theorem run {env : Env} {α : Type} {p : Prog α} (hp : p.Performs (E := Sys) (MakesIn env.cwd d))
    {w : World} (h : Ready d w.files) : Ready d (p.run env.handler w).2.files :=
  hp.run_preserves (I := fun w : World => Ready d w.files) (fun _ _ => act) h

end Ready

/-! ## Writing one file -/

/-- A file in a directory that was just made. -/
theorem fileAt_made {d : List Component} {t u : Files} (hu : t.mkdirs d = some u) (x : Component)
    (c : Content) : FileAt t (d ++ [x]) (some c) (u.set (d ++ [x]) (.file c)) := by
  intro q
  rw [FileTree.content?_set, FileTree.content?_mkdirs hu]
  rfl

theorem isDir_made {d : List Component} {t u : Files} (hu : t.mkdirs d = some u) (x : Component)
    (c : Content) : FileTree.isDir (u.set (d ++ [x]) (.file c)) d := by
  have hparent := FileTree.isDir_set_parent (t := u) (p := d ++ [x]) (e := .file c)
    (by rw [List.dropLast_concat]; exact FileTree.isDir_mkdirs hu)
  rwa [List.dropLast_concat] at hparent

/-- A new file of one kind and retention for that kind: the kind rotates, the others stay. -/
theorem archiveNames_written {env : Env} {dir : Path} {kind : Kind} {keep : Nat} {t : Files}
    {v u : World} {deleted : List Path} {x : Component} {c : Content}
    (hfile : FileAt t (dir.locate env.cwd ++ [x]) (some c) v.files)
    (hdir : v.files.isDir (dir.locate env.cwd))
    (hret : RetentionEnd env dir kind.pattern keep v (.ok deleted, u)) (hdot : x.val ≠ "..")
    (hmatch : Glob.fnmatch x.val kind.pattern) (kind' : Kind) :
    archiveNames u.files (dir.locate env.cwd) kind'.pattern =
      if kind' = kind then
        newest keep (insert x.val (archiveNames t (dir.locate env.cwd) kind'.pattern))
      else archiveNames t (dir.locate env.cwd) kind'.pattern := by
  split
  · next h =>
    subst h
    rw [hret.archiveNames_eq hdir, archiveNames_fileAt hfile hdot hmatch, Int.toNat_natCast]
  · next hne =>
    refine archiveNames_congr fun y hy => ?_
    have hother : ¬ Glob.fnmatch y.val kind.pattern := fun h => hne (Kind.eq_of_fnmatch hy h)
    rw [hret.content?_eq hother, hfile]
    refine if_neg fun heq => hother ?_
    obtain rfl : y = x := by simpa using heq
    exact hmatch

section Footprint

variable {server : ServerConfig} {backupDir : Path} {cwd : List Component}

theorem makesIn_file {x : Component} (hdot : x.val ≠ "..") :
    FileFootprint (MakesIn cwd ((configsDir server backupDir).locate cwd))
      ((configsDir server backupDir).child x) := by
  have hloc := Path.locate_child cwd (configsDir server backupDir) hdot
  exact ⟨congrArg _ (Path.parent_child _ x), ⟨x, hloc⟩, fun _ => ⟨x, hloc⟩, trivial, trivial,
    fun _ => ⟨x, hloc⟩⟩

theorem makesIn_dir : DirFootprint (MakesIn cwd ((configsDir server backupDir).locate cwd))
    (configsDir server backupDir) :=
  ⟨rfl, trivial, fun _ => trivial, fun _ => trivial, fun _ => trivial⟩

end Footprint

/-- Saving one package list: if its command succeeds the list is written and its kind rotates,
otherwise nothing changes. -/
theorem savePackageDump_run {env : Env} {server : ServerConfig} {backupDir : Path}
    {command suffix : String} {ssh : Ssh} {w : World} {p : CompletedProcess} (kind : Kind)
    (time : DateTime) (k : Nat) (hpattern : kind.pattern = "packages_" ++ suffix ++ "_*.txt")
    (hname : kind.filename server.name time =
      buildPackagesFilename server.name (buildTimestamp time) suffix)
    (hserver : '/' ∉ server.name.toList) (hfault : ∀ o, env.fault o = none)
    (hready : Ready ((configsDir server backupDir).locate env.cwd) w.files)
    (hp : env.run w.log.length (runInvocation server command ssh) = .ok p) :
    ∃ r u, (savePackageDump server command suffix (configsDir server backupDir)
        (buildTimestamp time) ssh k false).run env.handler w = (r, u) ∧
      (r.isOk ↔ p.returncode = 0) ∧
      Ready ((configsDir server backupDir).locate env.cwd) u.files ∧
      ∀ kind' : Kind,
        archiveNames u.files ((configsDir server backupDir).locate env.cwd) kind'.pattern =
          if kind' = kind ∧ p.returncode = 0 then
            newest k (insert (kind.filename server.name time)
              (archiveNames w.files ((configsDir server backupDir).locate env.cwd) kind'.pattern))
          else
            archiveNames w.files ((configsDir server backupDir).locate env.cwd) kind'.pattern := by
  obtain ⟨x, hx, hdot⟩ := kind.exists_entry hserver time
  have hfile : FileFootprint (MakesIn env.cwd ((configsDir server backupDir).locate env.cwd))
      (packagesPath server backupDir suffix (buildTimestamp time)) := by
    rw [packagesPath, ← hname, ← hx, Path.div_val]
    exact makesIn_file hdot
  have hready' := hready.run (savePackageDump_performs command ssh k false trivial hfile
    makesIn_dir)
  obtain ⟨v, hv, hrun⟩ := runOn_run hp
  revert hready'
  simp only [savePackageDump, runAndCapture, Program.bind_eq, Program.run_bind, Bool.false_eq_true,
    if_false]
  rcases hrun with ⟨hzero, hrun⟩ | ⟨hne, e, hrun⟩
  · simp only [hrun, Program.run_ret, Program.pure_eq]
    have hmatch : Glob.fnmatch x.val kind.pattern := hx ▸ kind.fnmatch_filename _ _
    have hloc := Path.locate_child env.cwd (configsDir server backupDir) hdot
    rw [← hname, ← hx, Path.div_val, ← hpattern]
    obtain ⟨t, ht⟩ := FileTree.exists_mkdirs (hready.noFile)
    obtain ⟨v₁, hmkdir, hv₁⟩ := mkdir_run (hfault _) (hv ▸ ht)
    obtain ⟨v₂, hwrite, hv₂⟩ := writeText_run ((configsDir server backupDir).child x) p.stdout
      (hfault _) (w := v₁) (hv₁ ▸ hloc ▸ hready.create ht x _)
    obtain ⟨deleted, u, hu, hret⟩ := applyRetention_returns hfault (configsDir server backupDir)
      kind.pattern k v₂
    simp only [hmkdir, hwrite, hu]
    refine fun hready' => ⟨_, u, rfl, by simp [Except.isOk, Except.toBool, hzero], hready',
      fun kind' => ?_⟩
    rw [hv₁, hloc] at hv₂
    rw [archiveNames_written (hv₂ ▸ fileAt_made ht x _) (hv₂ ▸ isDir_made ht x _) hret hdot hmatch]
    simp [hzero]
  · simp only [hrun]
    refine fun hready' => ⟨_, v, rfl, ?_, hready', fun kind' => ?_⟩
    · simp [Except.isOk, Except.toBool, hne]
    · rw [if_neg fun h => hne h.2, hv]

/-- In a ready directory nothing refuses a new file but the environment. -/
theorem not_refusal {env : Env} {dir : Path} {x : Component} {t : Files} (hdot : x.val ≠ "..")
    (hfault : ∀ o, env.fault o = none) (hready : Ready (dir.locate env.cwd) t) :
    ¬ Refusal env (dir.child x) t := by
  obtain ⟨u, hu⟩ := FileTree.exists_mkdirs hready.noFile
  rw [Refusal, Path.parent_child, Path.locate_child env.cwd dir hdot, hu]
  simp [hfault, hready.create hu]

/-- Pulling the configuration: if the command succeeds the archive is written and its kind
rotates, otherwise nothing changes. -/
theorem backupConfig_archiveNames {env : Env} {server : ServerConfig} {backupDir : Path}
    {files : Files} {p : PipedProcess} (configPaths excludePatterns : List String) (ssh : Ssh)
    (k : Nat) (hserver : '/' ∉ server.name.toList) (hfault : ∀ o, env.fault o = none)
    (hp : env.pipe (tarInvocation server ssh configPaths excludePatterns) = .ok p)
    (hready : Ready ((configsDir server backupDir).locate env.cwd) files)
    (hnew : Kind.config.filename server.name (env.clock 0) ∉ archiveNames files
      ((configsDir server backupDir).locate env.cwd) Kind.config.pattern) (kind' : Kind) :
    archiveNames (env.exec (backupConfig server backupDir configPaths excludePatterns ssh k
        false) files).2.files ((configsDir server backupDir).locate env.cwd) kind'.pattern =
      if kind' = .config ∧ p.returncode = 0 then
        newest k (insert (Kind.config.filename server.name (env.clock 0))
          (archiveNames files ((configsDir server backupDir).locate env.cwd) kind'.pattern))
      else archiveNames files ((configsDir server backupDir).locate env.cwd) kind'.pattern := by
  obtain ⟨x, hx, hdot⟩ := Kind.config.exists_entry hserver (env.clock 0)
  have hmatch : Glob.fnmatch x.val Kind.config.pattern := hx ▸ Kind.config.fnmatch_filename _ _
  have hpath : configPath server backupDir (buildTimestamp (env.clock 0)) =
      (configsDir server backupDir).child x := by
    rw [configPath, ← Path.div_val, hx]
    rfl
  have hloc := Path.locate_child env.cwd (configsDir server backupDir) hdot
  rw [backupConfig_exec, Program.run_bind]
  generalize hw : World.record ⟨files, []⟩ .now (env.act 0 .now files) = w
  obtain rfl : w.files = files := by rw [← hw]; rfl
  obtain ⟨failed, exited, r, u, r', u', hpipe, hrun, hfiles, hcases⟩ := configTransfer_end env
    server backupDir configPaths excludePatterns ssh (buildTimestamp (env.clock 0)) w
  rw [hrun]
  rw [hpath] at hpipe hcases
  cases hpipe with
  | refused e u hrefusal _ _ => exact absurd hrefusal (not_refusal hdot hfault hready)
  | notStarted e u hstart _ =>
    rw [tarInvocation, hstart] at hp
    cases hp
  | stuck p' e r u _ _ hstuck _ =>
    rw [hfault] at hstuck
    cases hstuck
  | removed p' u hp' hne _ hgone =>
    obtain rfl : p' = p := by
      rw [tarInvocation, hp'] at hp
      cases hp
      rfl
    rw [if_neg fun h => hne h.2]
    obtain ⟨e, -, rfl, rfl⟩ | ⟨h, -⟩ := hcases
    · refine archiveNames_congr fun y _ => ?_
      rw [hgone, hloc]
      split
      · next hy =>
        rw [hy, eq_comm, Option.eq_none_iff_forall_ne_some]
        intro c hc
        exact hnew (hx ▸ mem_archiveNames_val.mpr (mem_archives.mpr ⟨hdot, hmatch, c, hc⟩))
      · rfl
    · cases h
  | written p' u hp' hzero hdir hfile =>
    obtain rfl : p' = p := by
      rw [tarInvocation, hp'] at hp
      cases hp
      rfl
    rw [hloc] at hdir hfile
    rw [List.dropLast_concat] at hdir
    obtain ⟨e, h, -, -⟩ | ⟨-, rfl | ⟨e, -, hwhy⟩⟩ := hcases
    · cases h
    · obtain ⟨deleted, v, hv, hret⟩ := applyRetention_returns hfault
        (configsDir server backupDir) Kind.config.pattern k u'
      rw [Kind.pattern] at hv
      simp only [Program.run_bind, hv]
      rw [← hfiles] at hdir hfile
      rw [← hx]
      simpa [hzero] using archiveNames_written hfile hdir hret hdot hmatch kind'
    · simp [hfault, hfile _, hloc] at hwhy

/-- Saving the package lists: the second command only runs after a success of the first. -/
theorem backupPackages_archiveNames {env : Env} {server : ServerConfig} {backupDir : Path}
    {files : Files} {p q : CompletedProcess} (ssh : Ssh) (k : Nat)
    (hserver : '/' ∉ server.name.toList) (hfault : ∀ o, env.fault o = none)
    (hp : ∀ n, env.run n (runInvocation server dpkgSelectionsCmd ssh) = .ok p)
    (hq : ∀ n, env.run n (runInvocation server dpkgListCmd ssh) = .ok q)
    (hready : Ready ((configsDir server backupDir).locate env.cwd) files) (kind' : Kind) :
    archiveNames (env.exec (backupPackages server backupDir ssh k false) files).2.files
        ((configsDir server backupDir).locate env.cwd) kind'.pattern =
      if (kind' = .selections ∧ p.returncode = 0) ∨
          (kind' = .list ∧ p.returncode = 0 ∧ q.returncode = 0) then
        newest k (insert (kind'.filename server.name (env.clock 0))
          (archiveNames files ((configsDir server backupDir).locate env.cwd) kind'.pattern))
      else archiveNames files ((configsDir server backupDir).locate env.cwd) kind'.pattern := by
  have hexec : env.exec (backupPackages server backupDir ssh k false) files =
      (Program.forEach [(dpkgSelectionsCmd, "selections"), (dpkgListCmd, "list")] fun dump =>
        savePackageDump server dump.1 dump.2 (configsDir server backupDir)
          (buildTimestamp (env.clock 0)) ssh k false).run env.handler
            (World.record ⟨files, []⟩ .now (env.act 0 .now files)) := rfl
  rw [hexec]
  generalize hw : World.record ⟨files, []⟩ .now (env.act 0 .now files) = w
  obtain rfl : w.files = files := by rw [← hw]; rfl
  obtain ⟨r₁, u₁, hrun₁, hok₁, hready₁, hnames₁⟩ := savePackageDump_run .selections (env.clock 0) k
    rfl rfl hserver hfault hready (hp w.log.length)
  obtain ⟨r₂, u₂, hrun₂, hok₂, -, hnames₂⟩ := savePackageDump_run .list (env.clock 0) k
    rfl rfl hserver hfault hready₁ (hq u₁.log.length)
  simp only [Program.forEach, Program.run_bind, hrun₁]
  rcases r₁ with e | _
  · have hne : p.returncode ≠ 0 := fun h => by cases hok₁.mpr h
    simpa [hne] using hnames₁ kind'
  · have hzero : p.returncode = 0 := hok₁.mp rfl
    simp only [hrun₂, Program.run_ret]
    have hnames : archiveNames u₂.files ((configsDir server backupDir).locate env.cwd)
        kind'.pattern = if (kind' = .selections ∧ p.returncode = 0) ∨
          (kind' = .list ∧ p.returncode = 0 ∧ q.returncode = 0) then
        newest k (insert (kind'.filename server.name (env.clock 0))
          (archiveNames w.files ((configsDir server backupDir).locate env.cwd) kind'.pattern))
      else archiveNames w.files ((configsDir server backupDir).locate env.cwd) kind'.pattern := by
      rw [hnames₂, hnames₁]
      cases kind' <;> simp [hzero]
    cases r₂ <;> exact hnames

/-! ## Runs one after the other -/

/-- The two functions that write to the directory. -/
inductive Job where
  | config
  | packages
  deriving DecidableEq, Repr

/-- One run of a job: when it takes its timestamp, its arguments and how its commands end. -/
structure ConfigsRun where
  job : Job
  time : DateTime
  ssh : Ssh
  configPaths : List String
  excludePatterns : List String
  transfer : PipedProcess
  selections : CompletedProcess
  list : CompletedProcess

namespace ConfigsRun

variable (server : ServerConfig) (backupDir : Path) (cwd : List Component)
  (configCount packagelistCount : Nat)

/-- Commands run and end as the run says; the local file system refuses nothing. -/
def env (r : ConfigsRun) : Env where
  cwd := cwd
  clock _ := r.time
  monotonic _ := 0
  run _ cmd :=
    .ok (if cmd = runInvocation server dpkgSelectionsCmd r.ssh then r.selections else r.list)
  pipe _ := .ok r.transfer
  fault _ := none

def program (r : ConfigsRun) : Prog Unit :=
  match r.job with
  | .config => backupConfig server backupDir r.configPaths r.excludePatterns r.ssh configCount false
  | .packages => backupPackages server backupDir r.ssh packagelistCount false

def exec (r : ConfigsRun) (files : Files) : Except Error Unit × World :=
  (r.env server cwd).exec (r.program server backupDir configCount packagelistCount) files

/-- The retention count of a kind. -/
def count : Kind → Nat
  | .config => configCount
  | .selections | .list => packagelistCount

/-- The run writes a file of the kind: its job does, and the commands up to it succeed. -/
def Writes (r : ConfigsRun) : Kind → Prop
  | .config => r.job = .config ∧ r.transfer.returncode = 0
  | .selections => r.job = .packages ∧ r.selections.returncode = 0
  | .list => r.job = .packages ∧ r.selections.returncode = 0 ∧ r.list.returncode = 0

/-- The job that writes files of a kind. -/
def jobOf : Kind → Job
  | .config => .config
  | .selections | .list => .packages

theorem Writes.job_eq {r : ConfigsRun} {kind : Kind} (h : r.Writes kind) : r.job = jobOf kind := by
  cases kind <;> exact h.1

instance (r : ConfigsRun) (kind : Kind) : Decidable (r.Writes kind) := by
  cases kind <;> unfold Writes <;> infer_instance

/-- The names that the runs write for a kind, in order. -/
def written (kind : Kind) (runs : List ConfigsRun) : List String :=
  (runs.filter fun r => r.Writes kind).map fun r => kind.filename server.name r.time

/-- The names of the files of a kind. -/
def names (t : Files) (kind : Kind) : Finset String :=
  archiveNames t ((configsDir server backupDir).locate cwd) kind.pattern

variable {server backupDir cwd configCount packagelistCount}

theorem dpkgList_ne_dpkgSelections (ssh : Ssh) :
    runInvocation server dpkgListCmd ssh ≠ runInvocation server dpkgSelectionsCmd ssh := by
  unfold runInvocation
  split
  · decide
  · simp [buildSshCmd, dpkgListCmd, dpkgSelectionsCmd]

/-- One run makes the kinds that it writes rotate and leaves the others. -/
theorem names_exec (r : ConfigsRun) {files : Files} (hserver : '/' ∉ server.name.toList)
    (hready : Ready ((configsDir server backupDir).locate cwd) files)
    (hnew : r.job = .config →
      Kind.config.filename server.name r.time ∉ names server backupDir cwd files .config)
    (kind : Kind) :
    names server backupDir cwd
        (r.exec server backupDir cwd configCount packagelistCount files).2.files kind =
      if r.Writes kind then
        newest (count configCount packagelistCount kind)
          (insert (kind.filename server.name r.time) (names server backupDir cwd files kind))
      else names server backupDir cwd files kind := by
  have hfault : ∀ o, (r.env server cwd).fault o = none := fun _ => rfl
  cases hjob : r.job with
  | config =>
    have hexec : r.exec server backupDir cwd configCount packagelistCount files =
        (r.env server cwd).exec (backupConfig server backupDir r.configPaths r.excludePatterns r.ssh
          configCount false) files := by
      rw [exec, program, hjob]
    have h : names server backupDir cwd
        (r.exec server backupDir cwd configCount packagelistCount files).2.files kind =
          if kind = .config ∧ r.transfer.returncode = 0 then
            newest configCount (insert (Kind.config.filename server.name r.time)
              (names server backupDir cwd files kind))
          else names server backupDir cwd files kind := by
      rw [hexec]
      exact backupConfig_archiveNames r.configPaths r.excludePatterns r.ssh configCount hserver
        hfault rfl hready (hnew hjob) kind
    rw [h]
    cases kind <;> simp [Writes, hjob, count]
  | packages =>
    have hexec : r.exec server backupDir cwd configCount packagelistCount files =
        (r.env server cwd).exec (backupPackages server backupDir r.ssh packagelistCount false)
          files := by
      rw [exec, program, hjob]
    have h : names server backupDir cwd
        (r.exec server backupDir cwd configCount packagelistCount files).2.files kind =
          if (kind = .selections ∧ r.selections.returncode = 0) ∨
              (kind = .list ∧ r.selections.returncode = 0 ∧ r.list.returncode = 0) then
            newest packagelistCount (insert (kind.filename server.name r.time)
              (names server backupDir cwd files kind))
          else names server backupDir cwd files kind := by
      rw [hexec]
      exact backupPackages_archiveNames r.ssh packagelistCount hserver hfault
        (fun _ => congrArg Except.ok (if_pos rfl))
        (fun _ => congrArg Except.ok (if_neg (dpkgList_ne_dpkgSelections r.ssh))) hready kind
    rw [h]
    cases kind <;> simp [Writes, hjob, count]

theorem ready_exec (r : ConfigsRun) {files : Files} (hserver : '/' ∉ server.name.toList)
    (hready : Ready ((configsDir server backupDir).locate cwd) files) :
    Ready ((configsDir server backupDir).locate cwd)
      (r.exec server backupDir cwd configCount packagelistCount files).2.files := by
  have hfile : ∀ (kind : Kind) (time : DateTime), FileFootprint
      (MakesIn cwd ((configsDir server backupDir).locate cwd))
      (configsDir server backupDir / kind.filename server.name time) := by
    intro kind time
    obtain ⟨x, hx, hdot⟩ := kind.exists_entry hserver time
    rw [← hx, Path.div_val]
    exact makesIn_file hdot
  refine Ready.run (p := r.program server backupDir configCount packagelistCount) ?_ hready
  unfold program
  cases r.job with
  | config =>
    exact backupConfig_performs _ _ _ _ false trivial (hfile .config) makesIn_dir
  | packages =>
    refine backupPackages_performs _ false trivial (fun _ _ => trivial) ?_ makesIn_dir
    intro suffix hsuffix time
    rcases List.mem_pair.mp hsuffix with rfl | rfl
    · exact hfile .selections time
    · exact hfile .list time

/-- The files after the runs, each of which starts from what the one before it left. -/
def after (server : ServerConfig) (backupDir : Path) (cwd : List Component)
    (configCount packagelistCount : Nat) (start : Files) (runs : List ConfigsRun) : Files :=
  runs.foldl
    (fun files r => (r.exec server backupDir cwd configCount packagelistCount files).2.files) start

@[simp] theorem after_concat (start : Files) (runs : List ConfigsRun) (r : ConfigsRun) :
    after server backupDir cwd configCount packagelistCount start (runs ++ [r]) =
      (r.exec server backupDir cwd configCount packagelistCount
        (after server backupDir cwd configCount packagelistCount start runs)).2.files := by
  simp [after]

theorem written_concat (kind : Kind) (runs : List ConfigsRun) (r : ConfigsRun) :
    written server kind (runs ++ [r]) = written server kind runs ++
      if r.Writes kind then [kind.filename server.name r.time] else [] := by
  unfold written
  split <;> simp_all

/-- Times of one job increase, and names with them. -/
theorem pairwise_written {runs : List ConfigsRun} (hyear : ∀ r ∈ runs, 1000 ≤ r.time.year)
    (hincreasing : runs.Pairwise fun r r' => r.job = r'.job → r.time.toSecond < r'.time.toSecond)
    (kind : Kind) : (written server kind runs).Pairwise (· < ·) := by
  refine List.pairwise_map.mpr ((List.Pairwise.filter _ hincreasing).imp_of_mem ?_)
  intro r r' hr hr' hlt
  obtain ⟨hmem, hwrites⟩ := List.mem_filter.mp hr
  obtain ⟨hmem', hwrites'⟩ := List.mem_filter.mp hr'
  refine (Kind.filename_lt_iff _ (hyear r hmem) (hyear r' hmem') kind).mpr (hlt ?_)
  rw [(of_decide_eq_true hwrites).job_eq, (of_decide_eq_true hwrites').job_eq]

/-- After any history the files of each kind are those that rotation leaves of what was
written. -/
theorem names_after {start : Files} (hserver : '/' ∉ server.name.toList)
    (hready : Ready ((configsDir server backupDir).locate cwd) start)
    (hempty : ∀ kind, names server backupDir cwd start kind = ∅) {runs : List ConfigsRun}
    (hyear : ∀ r ∈ runs, 1000 ≤ r.time.year)
    (hincreasing : runs.Pairwise fun r r' => r.job = r'.job → r.time.toSecond < r'.time.toSecond) :
    Ready ((configsDir server backupDir).locate cwd)
        (after server backupDir cwd configCount packagelistCount start runs) ∧
      ∀ kind, names server backupDir cwd
          (after server backupDir cwd configCount packagelistCount start runs) kind =
        rotated (count configCount packagelistCount kind) (written server kind runs) := by
  induction runs using List.reverseRecOn with
  | nil => exact ⟨hready, fun kind => hempty kind⟩
  | append_singleton runs r ih =>
    obtain ⟨hready', hnames⟩ := ih (fun r' h => hyear r' (by simp [h]))
      (hincreasing.sublist (List.sublist_append_left runs [r]))
    rw [after_concat]
    refine ⟨ready_exec r hserver hready', fun kind => ?_⟩
    have hnew : r.job = .config → Kind.config.filename server.name r.time ∉
        names server backupDir cwd
          (after server backupDir cwd configCount packagelistCount start runs) .config := by
      intro hjob hold
      rw [hnames] at hold
      obtain ⟨r', hr', heq⟩ := List.mem_map.mp (mem_of_mem_rotated hold)
      obtain ⟨hmem, hwrites⟩ := List.mem_filter.mp hr'
      have hlt := (List.pairwise_append.mp hincreasing).2.2 r' hmem r (by simp)
        (by rw [(of_decide_eq_true hwrites).job_eq, hjob]; rfl)
      have hname := (Kind.filename_lt_iff server.name (hyear r' (by simp [hmem]))
        (hyear r (by simp)) .config).mpr hlt
      rw [heq] at hname
      exact lt_irrefl _ hname
    rw [names_exec r hserver hready' hnew, written_concat, hnames]
    split
    · rw [rotated_concat]
    · rw [List.append_nil]

/-- After every run each kind consists of exactly the latest files that were written of it, and a
run that writes none of a kind leaves the kind as it is. The runs start from an empty directory,
and the runs of one job are in different seconds. -/
theorem kinds_keep_latest (hserver : '/' ∉ server.name.toList) (hconfig : 1 ≤ configCount)
    (hpackagelist : 1 ≤ packagelistCount) {start : Files}
    (hfree : ∀ q ∈ FileTree.lineage ((configsDir server backupDir).locate cwd),
      start.content? q = none)
    (hempty : ∀ x, start.get? ((configsDir server backupDir).locate cwd ++ [x]) = none)
    {runs : List ConfigsRun} (hyear : ∀ r ∈ runs, 1000 ≤ r.time.year)
    (hincreasing : runs.Pairwise fun r r' => r.job = r'.job → r.time.toSecond < r'.time.toSecond)
    (kind : Kind) (n : Nat) :
    KeepsLatest (count configCount packagelistCount kind) (written server kind (runs.take n))
        (names server backupDir cwd
          (after server backupDir cwd configCount packagelistCount start (runs.take n)) kind) ∧
      ∀ h : n < runs.length, ¬ runs[n].Writes kind →
        names server backupDir cwd
            (after server backupDir cwd configCount packagelistCount start (runs.take (n + 1)))
            kind =
          names server backupDir cwd
            (after server backupDir cwd configCount packagelistCount start (runs.take n)) kind := by
  have hready : Ready ((configsDir server backupDir).locate cwd) start :=
    ⟨hfree, fun x => by simp [hempty]⟩
  have hnone : ∀ kind, names server backupDir cwd start kind = ∅ := by
    intro kind
    rw [names, archiveNames, Finset.image_eq_empty, Finset.eq_empty_iff_forall_notMem]
    intro x hx
    obtain ⟨-, -, c, hc⟩ := mem_archives.mp hx
    simp [FileTree.content?, hempty] at hc
  have hrotated : ∀ m, names server backupDir cwd
      (after server backupDir cwd configCount packagelistCount start (runs.take m)) kind =
        rotated (count configCount packagelistCount kind) (written server kind (runs.take m)) :=
    fun m => (names_after hserver hready hnone
      (fun r hr => hyear r (List.mem_of_mem_take hr))
      (hincreasing.sublist (List.take_sublist m runs))).2 kind
  have hcount : 1 ≤ count configCount packagelistCount kind := by
    cases kind <;> assumption
  have hsorted : (written server kind (runs.take n)).Pairwise (· < ·) := pairwise_written
    (fun r hr => hyear r (List.mem_of_mem_take hr))
    (hincreasing.sublist (List.take_sublist n runs)) kind
  have hnodup := hsorted.imp fun h => h.ne
  constructor
  · rw [hrotated, keepsLatest_iff hnodup]
    exact (rotated_eq_latest_iff hcount hnodup).mpr (surplusFirst_of_increasing hsorted) _
      (List.prefix_refl _)
  · intro h hnot
    rw [hrotated, hrotated, List.take_succ_eq_append_getElem h, written_concat, if_neg hnot,
      List.append_nil]

end ConfigsRun

/-- A run at the given time with commands that succeed, but for the exit status of `dpkg -l`. -/
def sampleConfigsRun (job : Job) (time : DateTime) (list : Int) : ConfigsRun where
  job := job
  time := time
  ssh := sampleSsh
  configPaths := ["/etc/pve"]
  excludePatterns := []
  transfer := ⟨0, [31, 139, 8], ""⟩
  selections := ⟨0, "bash install", ""⟩
  list := ⟨list, "ii bash", ""⟩

/-- A night of one job each, the second of which loses its last command, and the next night. -/
def sampleConfigsRuns : List ConfigsRun :=
  [sampleConfigsRun .config sampleTime 0, sampleConfigsRun .packages sampleTime 2,
    sampleConfigsRun .config sampleNextDay 0,
    sampleConfigsRun .packages sampleNextDay 0]

/-- Two dumps of the selections were written, and the later one is there. -/
theorem kinds_keep_latest_sample :
    ConfigsRun.written sampleServer .selections (sampleConfigsRuns.take 4) =
      ["packages_selections_px01_2026-03-23_04-30-00.txt",
        "packages_selections_px01_2026-03-24_04-30-00.txt"] ∧
    KeepsLatest (ConfigsRun.count 1 1 .selections)
      (ConfigsRun.written sampleServer .selections (sampleConfigsRuns.take 4))
      (ConfigsRun.names sampleServer sampleBase []
        (ConfigsRun.after sampleServer sampleBase [] 1 1 ∅ (sampleConfigsRuns.take 4))
        .selections) :=
  ⟨by decide +kernel, (ConfigsRun.kinds_keep_latest (by decide) (le_refl 1) (le_refl 1)
    (fun _ _ => rfl) (fun _ => rfl) (by decide) (by decide) .selections 4).1⟩

/-- A clock reading later in the same second. -/
def sampleTimeLater : DateTime :=
  { sampleTime with microsecond := 900000, microsecond_valid := by decide }

/-- Two archives of one second have one name: of two that were written only one is there. -/
theorem same_second_overwrites :
    sampleTime.Before sampleTimeLater ∧
      ¬ KeepsLatest 2
        (ConfigsRun.written sampleServer .config
          [sampleConfigsRun .config sampleTime 0, sampleConfigsRun .config sampleTimeLater 0])
        (ConfigsRun.names sampleServer sampleBase []
          (ConfigsRun.after sampleServer sampleBase [] 2 2 ∅
            [sampleConfigsRun .config sampleTime 0, sampleConfigsRun .config sampleTimeLater 0])
          .config) := by
  decide +kernel

end SrvBackup.Specification
