import SrvBackup.Specification.Transfer
import SrvBackup.Storage.Ranking

/-!
# What retention deletes

Whatever a pattern finds, retention ranks the regular files by name, keeps the last of them and
deletes the others from the front, up to the first one that cannot be deleted. Files of one name,
which a pattern of several parts or with `**` can find, rank as they are found.
-/
namespace SrvBackup.Specification

open SrvBackup.Domain SrvBackup.Effects SrvBackup.Storage SrvBackup.Text SrvBackup.Adapters

/-- A listing answers with what it finds among the files, and changes nothing. -/
def Lists (env : Env) (find : Prog (List Path)) (listing : Files → List Path) : Prop :=
  ∀ w, ∃ u, find.run env.handler w = (.ok (listing w.files), u) ∧ u.files = w.files

/-- The paths at which there is a regular file. -/
def regularFiles (env : Env) (t : Files) (paths : List Path) : List Path :=
  paths.filter fun p => (t.content? (p.locate env.cwd)).isSome

/-- How retention ends where the pattern finds `found`: the surplus is gone and returned, or a file
of it could not be deleted, because the system refuses it or because it was found twice, and just
the ones that rank before it are gone. -/
inductive PruneEnd (env : Env) (directory : Path) (found : List Path) (keep : Int) (w : World) :
    Except Error (List Path) × World → Prop
  | absent {u} : w.files.isDir (directory.locate env.cwd) = false →
      u.files = w.files → PruneEnd env directory found keep w (.ok [], u)
  | pruned {surplus kept u} :
      Ranked Path.name (regularFiles env w.files found) (surplus ++ kept) →
      kept.length = min (regularFiles env w.files found).length keep.toNat →
      (∀ p ∈ surplus, env.fault (.unlink p) = none) →
      TreeWithout w.files (surplus.map (·.locate env.cwd)) u.files →
      PruneEnd env directory found keep w (.ok surplus, u)
  | stopped {before p after kept e u} :
      Ranked Path.name (regularFiles env w.files found) (before ++ p :: (after ++ kept)) →
      kept.length = min (regularFiles env w.files found).length keep.toNat →
      (∀ q ∈ before, env.fault (.unlink q) = none) →
      (env.fault (.unlink p) = some e ∨ p.locate env.cwd ∈ before.map (·.locate env.cwd)) →
      TreeWithout w.files (before.map (·.locate env.cwd)) u.files →
      PruneEnd env directory found keep w
        (.error (.retention ("Cannot delete " ++ p.str ++ ": " ++ e.text)), u)

section Run

variable {env : Env} {w v : World}

/-- The deletion loop, over the front of the ranked files. -/
theorem deleteAll_ranked_end (directory : Path) {found surplus kept : List Path} {keep : Int}
    (hfiles : v.files = w.files)
    (hranked : Ranked Path.name (regularFiles env w.files found) (surplus ++ kept))
    (hkept : kept.length = min (regularFiles env w.files found).length keep.toNat) :
    PruneEnd env directory found keep w ((deleteAll surplus).run env.handler v) := by
  have hthere : ∀ p ∈ surplus, ∃ c, v.files.content? (p.locate env.cwd) = some c := by
    intro p hp
    have hregular := hranked.perm.subset (List.mem_append_left kept hp)
    rw [hfiles]
    exact Option.isSome_iff_exists.mp (List.mem_filter.mp hregular).2
  have hrun := deleteAll_run env v.files [] surplus v hthere fun q => by simp
  generalize (deleteAll surplus).run env.handler v = r at hrun ⊢
  cases hrun with
  | all u hok hgone =>
    rw [hfiles] at hgone
    exact .pruned hranked hkept hok hgone
  | stopped before after p e u hsurplus hok hfail hgone =>
    subst hsurplus
    rw [List.append_assoc, List.cons_append] at hranked
    rw [hfiles] at hgone
    exact .stopped hranked hkept hok hfail hgone

end Run

/-- Whatever the pattern finds, retention deletes the first of the ranked regular files, all of
them or up to one that cannot be deleted. -/
theorem applyRetentionGlob_end {env : Env} {pathGlob : Path → String → Prog (List Path)}
    {listing : Path → String → Files → List Path}
    (hglob : ∀ directory pattern,
      Lists env (pathGlob directory pattern) (listing directory pattern))
    (directory : Path) (pattern : String) (keep : Int) (w : World) :
    PruneEnd env directory (listing directory pattern w.files) keep w
      ((applyRetentionGlob pathGlob directory pattern keep).run env.handler w) := by
  simp only [applyRetentionGlob, Program.bind_eq, Program.run_bind, run_isDir]
  cases hdir : w.files.isDir (directory.locate env.cwd) with
  | false => exact .absent hdir rfl
  | true =>
    simp only [Bool.not_true, Bool.false_eq_true, if_false, Program.run_bind]
    generalize hv : w.record _ _ = v
    have hvfiles : v.files = w.files := by rw [← hv]; rfl
    obtain ⟨u, hfind, hufiles⟩ := hglob directory pattern v
    obtain ⟨u', hkeep, hu'files⟩ :=
      keepIf_isFile_run env (listing directory pattern v.files) u
    have hsame : u'.files = w.files := hu'files.trans (hufiles.trans hvfiles)
    simp only [hfind, hkeep]
    rw [hufiles, hvfiles]
    have hranked := ranked_insertionSort Path.name
      (regularFiles env w.files (listing directory pattern w.files))
    have hlength := hranked.perm.length_eq
    unfold regularFiles at hranked hlength
    generalize List.insertionSort (fun p q : Path => p.name ≤ q.name) _ = files at hranked hlength ⊢
    split
    case isTrue hfew =>
      refine @PruneEnd.pruned _ _ _ _ _ [] files _ hranked ?_ (by simp) fun q => by simp [hsame]
      rw [regularFiles, ← hlength]
      omega
    case isFalse hmany =>
      have hsplit := List.take_append_drop ((files.length : Int) - keep).toNat files
      rw [← hsplit] at hranked
      refine deleteAll_ranked_end directory hsame hranked ?_
      rw [List.length_drop, regularFiles, ← hlength]
      omega

/-! ## Distinct names -/

/-- The names of the regular files among the paths. -/
def regularNames (env : Env) (t : Files) (paths : List Path) : Finset String :=
  ((regularFiles env t paths).map Path.name).toFinset

/-- What is returned are the files whose names are not among the newest, in ascending order, and
just they are gone; or one of them cannot be deleted, and the files with smaller names are gone. -/
def PrunedByName (env : Env) (found : List Path) (keep : Int) (t : Files) :
    Except Error (List Path) × World → Prop
  | (.ok deleted, u) =>
    (deleted.map Path.name).Pairwise (· < ·) ∧
      (∀ p, p ∈ deleted ↔ p ∈ regularFiles env t found ∧
        p.name ∉ newest keep.toNat (regularNames env t found)) ∧
      TreeWithout t (deleted.map (·.locate env.cwd)) u.files
  | (.error e, u) =>
    ∃ p ∈ regularFiles env t found, p.name ∉ newest keep.toNat (regularNames env t found) ∧
      (∃ cause, e = .retention ("Cannot delete " ++ p.str ++ ": " ++ cause)) ∧
      TreeWithout t (((regularFiles env t found).filter fun q =>
        q.name < p.name).map (·.locate env.cwd)) u.files

section Names

variable {env : Env} {w : World} {found surplus kept : List Path} {keep : Int}

/-- The surplus are the files whose names are not among the newest. -/
theorem mem_surplus_iff
    (hranked : Ranked Path.name (regularFiles env w.files found) (surplus ++ kept))
    (hkept : kept.length = min (regularFiles env w.files found).length keep.toNat)
    (hnames : ((regularFiles env w.files found).map Path.name).Nodup) (p : Path) :
    p ∈ surplus ↔ p ∈ regularFiles env w.files found ∧
      p.name ∉ newest keep.toNat (regularNames env w.files found) := by
  have hmem : ∀ n, n ∈ regularNames env w.files found ↔ n ∈ (surplus ++ kept).map Path.name := by
    intro n
    rw [regularNames, List.mem_toFinset]
    exact ((hranked.perm.map Path.name).mem_iff).symm
  have htake : ((surplus ++ kept).map Path.name).take
      (((surplus ++ kept).map Path.name).length - keep.toNat) = surplus.map Path.name := by
    have hlength := hranked.perm.length_eq
    rw [List.length_append] at hlength
    rw [List.map_append]
    refine List.take_left' ?_
    simp only [List.length_append, List.length_map]
    omega
  have hnewest := mem_take_sorted_iff (hranked.strict hnames) hmem keep.toNat p.name
  rw [htake] at hnewest
  constructor
  · intro hp
    exact ⟨hranked.perm.subset (List.mem_append_left _ hp),
      (hnewest.mp (List.mem_map_of_mem hp)).2⟩
  · rintro ⟨hp, hold⟩
    have hranks := hranked.perm.mem_iff.mpr hp
    have hname := hnewest.mpr ⟨(hmem _).mpr (List.mem_map_of_mem hranks), hold⟩
    obtain ⟨q, hq, hqp⟩ := List.mem_map.mp hname
    have hdistinct := (hranked.perm.map Path.name).nodup_iff.mpr hnames
    rwa [← List.inj_on_of_nodup_map hdistinct (List.mem_append_left _ hq) hranks hqp]

/-- Where the names are distinct, retention ends as the ranking by name says. -/
theorem PruneEnd.by_name {directory : Path} {r : Except Error (List Path) × World}
    (h : PruneEnd env directory found keep w r) (hdir : w.files.isDir (directory.locate env.cwd))
    (hnames : ((regularFiles env w.files found).map Path.name).Nodup) :
    PrunedByName env found keep w.files r := by
  cases h with
  | absent hnone _ =>
    rw [hnone] at hdir
    contradiction
  | pruned hranked hkept _ hgone =>
    refine ⟨?_, mem_surplus_iff hranked hkept hnames, hgone⟩
    have hstrict := hranked.strict hnames
    rw [List.map_append] at hstrict
    exact (List.pairwise_append.mp hstrict).1
  | @stopped before p after kept e u hranked hkept _ _ hgone =>
    have hsurplus : Ranked Path.name (regularFiles env w.files found)
        ((before ++ p :: after) ++ kept) := by simpa using hranked
    obtain ⟨hp, hold⟩ := (mem_surplus_iff hsurplus hkept hnames p).mp (by simp)
    refine ⟨p, hp, hold, ⟨_, rfl⟩, hgone.congr fun q => ?_⟩
    simp only [List.mem_map, List.mem_filter, decide_eq_true_eq,
      hranked.mem_before_iff hnames rfl]

end Names

/-- What `globChildren` finds. -/
def childrenFound (env : Env) (directory : Path) (pattern : String) (t : Files) : List Path :=
  ((t.children (directory.locate env.cwd)).filter fun x =>
    x.val ≠ ".." && Glob.fnmatch x.val pattern).map directory.child

theorem lists_globChildren (env : Env) (directory : Path) (pattern : String) :
    Lists env (globChildren directory pattern) (childrenFound env directory pattern) :=
  fun _ => ⟨_, rfl, rfl⟩

/-- A pattern of one part without `**` finds no name twice. -/
theorem nodup_names_childrenFound (env : Env) (directory : Path) (pattern : String) (t : Files) :
    ((regularFiles env t (childrenFound env directory pattern t)).map Path.name).Nodup := by
  have hnames : ((childrenFound env directory pattern t).map Path.name).Nodup := by
    rw [childrenFound, List.map_map]
    refine List.Nodup.map (fun x y hxy => Subtype.ext ?_) ((FileTree.nodup_children t _).filter _)
    simpa using hxy
  exact hnames.sublist (List.filter_sublist.map _)

/-- The program's patterns have one part, so that its retention is by name. -/
theorem applyRetention_by_name {env : Env} {directory : Path} {pattern : String} {keep : Int}
    {w : World} (h : PruneEnd env directory (childrenFound env directory pattern w.files) keep w
      ((applyRetentionGlob globChildren directory pattern keep).run env.handler w))
    (hdir : w.files.isDir (directory.locate env.cwd)) :
    PrunedByName env (childrenFound env directory pattern w.files) keep w.files
      ((applyRetention directory pattern keep).run env.handler w) := by
  rw [applyRetention_eq]
  exact h.by_name hdir (nodup_names_childrenFound env directory pattern w.files)

/-! ## Patterns of several parts -/

/-- What `f` answers for each of the paths, one after the other. -/
def collect (f : Path → Prog (List Path)) : List Path → Prog (List Path)
  | [] => pure []
  | path :: paths => do
    let front ← f path
    let rest ← collect f paths
    pure (front ++ rest)

/-- `Path.glob` part by part; every part but the last finds directories. -/
def globParts : List Component → Path → Prog (List Path)
  | [], _ => pure []
  | [part], directory => globChildren directory part.val
  | part :: parts, directory => do
    let found ← globChildren directory part.val
    let below ← Program.keepIf isDir found
    collect (globParts parts) below

/-- `Path.glob` for patterns without `..` and `**`. -/
def globPattern (directory : Path) (pattern : String) : Prog (List Path) :=
  globParts (components pattern) directory

/-- What `globParts` finds. -/
def partsFound (env : Env) : List Component → Path → Files → List Path
  | [], _, _ => []
  | [part], directory, t => childrenFound env directory part.val t
  | part :: parts, directory, t =>
    ((childrenFound env directory part.val t).filter fun p =>
      t.isDir (p.locate env.cwd)).flatMap fun p => partsFound env parts p t

section Listings

variable {env : Env}

theorem keepIf_isDir_run (ps : List Path) (w : World) :
    ∃ u, (Program.keepIf isDir ps).run env.handler w =
        (.ok (ps.filter fun p => w.files.isDir (p.locate env.cwd)), u) ∧ u.files = w.files := by
  induction ps generalizing w with
  | nil => exact ⟨w, rfl, rfl⟩
  | cons p ps ih =>
    obtain ⟨u, hu, hfiles⟩ := ih (w.record (.isDir p) (env.act w.log.length (.isDir p) w.files))
    refine ⟨u, ?_, hfiles⟩
    simp only [Program.keepIf, Program.run_bind, run_isDir, hu, Program.run_ret]
    simp only [World.record, Env.act, List.filter_cons]

theorem lists_collect {f : Path → Prog (List Path)} {listing : Path → Files → List Path}
    (hf : ∀ path, Lists env (f path) (listing path)) (paths : List Path) :
    Lists env (collect f paths) fun t => paths.flatMap fun path => listing path t := by
  induction paths with
  | nil => exact fun w => ⟨w, rfl, rfl⟩
  | cons path paths ih =>
    intro w
    obtain ⟨u, hfront, hu⟩ := hf path w
    obtain ⟨v, hrest, hv⟩ := ih u
    refine ⟨v, ?_, hv.trans hu⟩
    rw [collect, Program.bind_eq, Program.run_bind_ok hfront, Program.bind_eq,
      Program.run_bind_ok hrest, hu]
    rfl

theorem lists_globParts (parts : List Component) (directory : Path) :
    Lists env (globParts parts directory) (partsFound env parts directory) := by
  induction parts generalizing directory with
  | nil => exact fun w => ⟨w, rfl, rfl⟩
  | cons part parts ih =>
    cases parts with
    | nil => exact lists_globChildren env directory part.val
    | cons next parts =>
      intro w
      obtain ⟨u, hfound, hu⟩ := lists_globChildren env directory part.val w
      obtain ⟨v, hbelow, hv⟩ := @keepIf_isDir_run env
        (childrenFound env directory part.val w.files) u
      obtain ⟨x, hcollect, hx⟩ := lists_collect ih ((childrenFound env directory part.val
        w.files).filter fun p => u.files.isDir (p.locate env.cwd)) v
      refine ⟨x, ?_, hx.trans (hv.trans hu)⟩
      rw [globParts, Program.bind_eq, Program.run_bind_ok hfound, Program.bind_eq,
        Program.run_bind_ok hbelow, hcollect, hv, hu]
      · rfl
      · simp

end Listings

/-- An environment in which files at one place cannot be deleted. -/
def pruneEnv (stuck : String) : Env where
  __ := sampleEnv (.ok ⟨0, [], ""⟩)
  fault o := if o = .unlink (Path.ofString stuck) then some ⟨"Permission denied", false⟩ else none

/-- Two directories with a file of one name in each. -/
def twinFiles : Files :=
  (((((∅ : Files).set (components "d") .dir).set (components "d/b") .dir).set
    (components "d/a") .dir).set (components "d/b/x.txt") (.file [2])).set
    (components "d/a/x.txt") (.file [1])

/-- One of the two files is kept. -/
theorem twins_sample :
    PruneEnd (pruneEnv "") (Path.ofString "d")
      (partsFound (pruneEnv "") (components "*/x.txt") (Path.ofString "d") twinFiles) 1
      ⟨twinFiles, []⟩
      ((pruneEnv "").exec (applyRetentionGlob globPattern (Path.ofString "d") "*/x.txt" 1)
        twinFiles) :=
  @applyRetentionGlob_end (pruneEnv "") globPattern
    (fun directory pattern => partsFound (pruneEnv "") (components pattern) directory)
    (fun directory pattern => lists_globParts (components pattern) directory)
    (Path.ofString "d") "*/x.txt" 1 ⟨twinFiles, []⟩

/-- The file that cannot be deleted has the name of the one that is deleted before it. -/
theorem twin_deleted :
    let run := (pruneEnv "d/b/x.txt").exec
      (applyRetentionGlob globPattern (Path.ofString "d") "*/x.txt" 0) twinFiles
    run.1 = .error (.retention "Cannot delete d/b/x.txt: Permission denied") ∧
      run.2.files.content? (components "d/a/x.txt") = none ∧
      twinFiles.content? (components "d/a/x.txt") = some [1] ∧
      ¬ (Path.ofString "d/a/x.txt").name < (Path.ofString "d/b/x.txt").name := by
  decide +kernel

end SrvBackup.Specification
