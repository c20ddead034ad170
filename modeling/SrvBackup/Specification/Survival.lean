import SrvBackup.Adapters.Retention
import SrvBackup.Effects.Visits

/-!
# Writing and pruning, wherever they are cut off

A program that writes its own file completely before it deletes anything, and then deletes surplus
files only, leaves enough files behind wherever it is cut off (`write_prune_survives`): those that
were there before, or complete new ones. What is left is `Survives`.
-/
namespace SrvBackup.Specification

open SrvBackup.Domain SrvBackup.Effects SrvBackup.Storage SrvBackup.Text SrvBackup.Adapters

/-! ## Where operations write -/

/-- The location whose file an operation can change. -/
def writes (cwd : List Component) : Op → Option (List Component)
  | .openWrite path | .popen _ path | .writeText path _ | .unlink path => some (path.locate cwd)
  | _ => none

theorem act_content? {env : Env} (n : Nat) {o : Op} {t : Files} {q : List Component}
    (h : writes env.cwd o ≠ some q) : (env.act n o t).2.content? q = t.content? q := by
  have hupdate : ∀ (fault : Option OSError) (e : OSError) (new : Option Files),
      (∀ u, new = some u → u.content? q = t.content? q) →
      (Env.update fault e new t).2.content? q = t.content? q := by
    intro fault e new hnew
    rcases Env.update_cases fault e new t with ⟨_, -, heq⟩ | ⟨u, -, hu, heq⟩
    · rw [heq]
    · rw [heq]
      exact hnew u hu
  cases o with
  | mkdir path => exact hupdate _ _ _ fun u hu => FileTree.content?_mkdirs hu q
  | openWrite path | writeText path text =>
    refine hupdate _ _ _ fun u hu => ?_
    rw [(FileTree.create_eq_some hu).2, FileTree.content?_set,
      if_neg fun hq => h (by simp [writes, hq])]
  | unlink path =>
    refine hupdate _ _ _ fun u hu => ?_
    simp only [Env.unlinked] at hu
    split at hu
    · cases hu
      rw [FileTree.content?_remove, if_neg fun hq => h (by simp [writes, hq])]
    · cases hu
  | popen cmd path =>
    simp only [Env.act]
    split
    · rw [FileTree.content?_set, if_neg fun hq => h (by simp [writes, hq])]
    · rfl
  | stat path => rw [Env.act_stat_files]
  | _ => rfl

/-- The trees hold the same at these locations. -/
def SameAt (Q : List Component → Prop) (t u : Files) : Prop :=
  ∀ q, Q q → u.content? q = t.content? q

theorem SameAt.refl (Q : List Component → Prop) (t : Files) : SameAt Q t t := fun _ _ => rfl

theorem SameAt.trans {Q : List Component → Prop} {t u v : Files} (htu : SameAt Q t u)
    (huv : SameAt Q u v) : SameAt Q t v := fun q hq => (huv q hq).trans (htu q hq)

theorem SameAt.mono {Q Q' : List Component → Prop} {t u : Files} (h : SameAt Q t u)
    (hQ : ∀ q, Q' q → Q q) : SameAt Q' t u := fun q hq => h q (hQ q hq)

/-- The operation writes to none of these locations. -/
def SparesAt (cwd : List Component) (Q : List Component → Prop) (o : Op) : Prop :=
  ∀ q, Q q → writes cwd o ≠ some q

theorem sparesAt_of_quiet {cwd : List Component} {o : Op} (ho : writes cwd o = none)
    (Q : List Component → Prop) : SparesAt cwd Q o := fun q _ h => by simp [ho] at h

/-- A run that starts with the files of `w` keeps what none of its operations writes to. -/
theorem always_sameAt {env : Env} {Q : List Component → Prop} {α : Type} {p : Prog α}
    (hp : p.Performs (E := Sys) (SparesAt env.cwd Q)) {w v : World} (hfiles : v.files = w.files) :
    p.Always env.handler (fun u => SameAt Q w.files u.files) v := by
  refine hp.always (fun o u ho hu => ?_) (hfiles ▸ .refl Q w.files)
  exact hu.trans fun q hq => act_content? u.log.length (ho q hq)

/-! ## Retention, step by step -/

/-- The surplus files of a directory. -/
def IsSurplus (t : Files) (d : List Component) (pattern : String) (keep : Int)
    (q : List Component) : Prop :=
  ∃ x ∈ archives t d pattern, x ∉ newest keep.toNat (archives t d pattern) ∧ q = d ++ [x]

/-- All along a run of retention, only surplus files are gone. -/
theorem applyRetention_always (env : Env) (directory : Path) (pattern : String) (keep : Int)
    (w : World) :
    (applyRetention directory pattern keep).Always env.handler (fun u => SameAt
      (fun q => ¬ IsSurplus w.files (directory.locate env.cwd) pattern keep q) w.files u.files)
      w := by
  generalize hQ : (fun q => ¬ IsSurplus w.files (directory.locate env.cwd) pattern keep q) = Q
  have hdir : (isDir directory).Performs (E := Sys) (SparesAt env.cwd Q) :=
    ⟨sparesAt_of_quiet rfl Q, fun _ => trivial⟩
  have hglob : (glob directory pattern).Performs (E := Sys) (SparesAt env.cwd Q) :=
    ⟨sparesAt_of_quiet rfl Q, fun _ => trivial⟩
  have hfile : ∀ paths : List Path,
      (Program.keepIf isFile paths).Performs (E := Sys) (SparesAt env.cwd Q) := fun paths =>
    Program.performs_keepIf fun _ _ => ⟨sparesAt_of_quiet rfl Q, fun _ => trivial⟩
  refine (always_sameAt hdir rfl).bind fun there v hv => ?_
  obtain ⟨-, hvfiles⟩ : there = w.files.isDir (directory.locate env.cwd) ∧ v.files = w.files := by
    simp only [run_isDir, Prod.mk.injEq, Except.ok.injEq] at hv
    obtain ⟨rfl, rfl⟩ := hv
    exact ⟨rfl, rfl⟩
  split
  · exact hvfiles ▸ .refl Q w.files
  refine (always_sameAt (w := w) hglob hvfiles).bind fun found u hu => ?_
  obtain ⟨rfl, hufiles⟩ : found = ((w.files.children (directory.locate env.cwd)).filter fun x =>
      x.val ≠ ".." && Glob.fnmatch x.val pattern) ∧ u.files = w.files := by
    simp only [run_glob, Prod.mk.injEq, Except.ok.injEq, Env.act, hvfiles] at hu
    obtain ⟨rfl, rfl⟩ := hu
    exact ⟨rfl, rfl⟩
  refine (always_sameAt (w := w) (hfile _) hufiles).bind fun regular x hx => ?_
  obtain ⟨x', hx', hxfiles⟩ := keepIf_isFile_run env (((w.files.children
    (directory.locate env.cwd)).filter fun x =>
      x.val ≠ ".." && Glob.fnmatch x.val pattern).map directory.child) u
  rw [hx', Prod.mk.injEq, Except.ok.injEq] at hx
  obtain ⟨rfl, rfl⟩ := hx
  rw [hufiles] at hxfiles
  -- The files that are deleted are the surplus ones.
  have hsorted := sorted_paths_eq env w.files directory pattern
  generalize hl : sortedArchives w.files (directory.locate env.cwd) pattern = l
  have hascending := sortedArchives_pairwise w.files (directory.locate env.cwd) pattern
  have hsurplus := mem_take_sorted_iff hascending (fun x => mem_sortedArchives) keep.toNat
  rw [hl] at hsurplus
  have htake : l.take ((l.length : Int) - keep).toNat = l.take (l.length - keep.toNat) := by
    by_cases hneg : 0 ≤ keep
    · congr 1
      omega
    · rw [List.take_of_length_le (by omega), List.take_of_length_le (by omega)]
  simp only [hufiles, hsorted, hl, List.length_map, ← List.map_take, htake]
  split
  · exact hxfiles ▸ .refl Q w.files
  refine always_sameAt (deleteAll_performs fun p hp => ?_) hxfiles
  obtain ⟨x, hx, rfl⟩ := List.mem_map.mp hp
  obtain ⟨hthere, hold⟩ := (hsurplus x).mp hx
  intro q hq hloc
  rw [← hQ] at hq
  rw [writes, Path.locate_child _ _ (mem_archives.mp hthere).1] at hloc
  exact hq ⟨x, hthere, hold, (Option.some.inj hloc).symm⟩

/-! ## What survives -/

/-- The file is as it was, or it is the run's own file and complete. -/
def Sound (made : Content → Prop) (own : List Component) (t u : Files) (q : List Component) :
    Prop :=
  u.content? q = t.content? q ∨ q = own ∧ ∃ c, u.content? q = some c ∧ made c

/-- A file of `t` that is not as it was has `keep` sound files with greater names in its place, and
altogether there are as many sound files as there were, up to `keep`. The run's own file, which may
replace one of the same name, does not count among those that were there. -/
structure Survives (made : Content → Prop) (d : List Component) (pattern : String) (keep : Int)
    (own : List Component) (t u : Files) : Prop where
  replaced : ∀ x ∈ archives t d pattern, d ++ [x] ≠ own →
    u.content? (d ++ [x]) ≠ t.content? (d ++ [x]) →
    ∃ S ⊆ archives u d pattern, S.card = keep.toNat ∧
      ∀ y ∈ S, x < y ∧ Sound made own t u (d ++ [y])
  enough : ∃ S ⊆ archives u d pattern,
    min keep.toNat ((archives t d pattern).filter fun x => d ++ [x] ≠ own).card ≤ S.card ∧
      ∀ y ∈ S, Sound made own t u (d ++ [y])

/-- The locations of the files that match the pattern. -/
def InSeries (d : List Component) (pattern : String) (q : List Component) : Prop :=
  ∃ x : Component, Glob.fnmatch x.val pattern ∧ q = d ++ [x]

section Survives

variable {made : Content → Prop} {d : List Component} {pattern : String} {keep : Int}
  {own : List Component} {t u v : Files}

/-- The first part gives the second one. -/
theorem survives_of_replaced (h : ∀ x ∈ archives t d pattern, d ++ [x] ≠ own →
    u.content? (d ++ [x]) ≠ t.content? (d ++ [x]) →
    ∃ S ⊆ archives u d pattern, S.card = keep.toNat ∧
      ∀ y ∈ S, x < y ∧ Sound made own t u (d ++ [y])) :
    Survives made d pattern keep own t u := by
  refine ⟨h, ?_⟩
  by_cases hall : ∀ x ∈ archives t d pattern, d ++ [x] ≠ own →
      u.content? (d ++ [x]) = t.content? (d ++ [x])
  · refine ⟨(archives t d pattern).filter fun x => d ++ [x] ≠ own, fun x hx => ?_,
      min_le_right _ _, fun x hx => ?_⟩
    · obtain ⟨hx, hown⟩ := Finset.mem_filter.mp hx
      obtain ⟨hdot, hmatch, c, hc⟩ := mem_archives.mp hx
      exact mem_archives.mpr ⟨hdot, hmatch, c, (hall x hx hown).trans hc⟩
    · obtain ⟨hx, hown⟩ := Finset.mem_filter.mp hx
      exact .inl (hall x hx hown)
  · push Not at hall
    obtain ⟨x, hx, hown, hne⟩ := hall
    obtain ⟨S, hS, hcard, hsound⟩ := h x hx hown hne
    exact ⟨S, hS, hcard ▸ min_le_left _ _, fun y hy => (hsound y hy).2⟩

theorem archives_congr (h : SameAt (InSeries d pattern) t u) :
    archives u d pattern = archives t d pattern := by
  ext x
  simp only [mem_archives]
  refine and_congr_right fun _ => and_congr_right fun hmatch => ?_
  rw [h _ ⟨x, hmatch, rfl⟩]

theorem inSeries_of_mem {x : Component} (hx : x ∈ archives t d pattern) :
    InSeries d pattern (d ++ [x]) := ⟨x, (mem_archives.mp hx).2.1, rfl⟩

theorem Survives.of_same (h : SameAt (InSeries d pattern) t u) :
    Survives made d pattern keep own t u :=
  survives_of_replaced fun _ hx _ hne => absurd (h _ (inSeries_of_mem hx)) hne

/-- Nothing happened to the files before. -/
theorem Survives.after (h : SameAt (InSeries d pattern) t v)
    (hs : Survives made d pattern keep own v u) : Survives made d pattern keep own t u := by
  refine survives_of_replaced fun x hx hown hne => ?_
  rw [← archives_congr h] at hx
  rw [← h _ (inSeries_of_mem hx)] at hne
  obtain ⟨S, hS, hcard, hsound⟩ := hs.replaced x hx hown hne
  refine ⟨S, hS, hcard, fun y hy => ⟨(hsound y hy).1, ?_⟩⟩
  rw [Sound, ← h _ (inSeries_of_mem (hS hy))]
  exact (hsound y hy).2

/-- Nothing happens to the files afterwards. -/
theorem Survives.before (hs : Survives made d pattern keep own t v)
    (h : SameAt (InSeries d pattern) v u) : Survives made d pattern keep own t u := by
  refine survives_of_replaced fun x hx hown hne => ?_
  rw [h _ (inSeries_of_mem hx)] at hne
  obtain ⟨S, hS, hcard, hsound⟩ := hs.replaced x hx hown hne
  rw [archives_congr h]
  refine ⟨S, hS, hcard, fun y hy => ⟨(hsound y hy).1, ?_⟩⟩
  rw [Sound, h _ (inSeries_of_mem (hS hy))]
  exact (hsound y hy).2

/-- Retention leaves the newest files alone. -/
theorem content?_of_pruned (hpruned : SameAt (fun q => ¬ IsSurplus v d pattern keep q) v u)
    {y : Component} (hy : y ∈ newest keep.toNat (archives v d pattern)) :
    y ∈ archives u d pattern ∧ u.content? (d ++ [y]) = v.content? (d ++ [y]) := by
  have hkept : u.content? (d ++ [y]) = v.content? (d ++ [y]) := by
    refine hpruned _ ?_
    rintro ⟨z, -, hz, heq⟩
    obtain rfl : y = z := by simpa using heq
    exact hz hy
  obtain ⟨hdot, hmatch, c, hc⟩ := mem_archives.mp (newest_subset _ _ hy)
  exact ⟨mem_archives.mpr ⟨hdot, hmatch, c, hkept.trans hc⟩, hkept⟩

/-- A file is surplus only where there are as many newer ones as are kept. -/
theorem card_newest_of_surplus {x : Component} (hthere : x ∈ archives v d pattern)
    (hold : x ∉ newest keep.toNat (archives v d pattern)) :
    (newest keep.toNat (archives v d pattern)).card = keep.toNat := by
  refine (card_newest _ _).trans (min_eq_left ?_)
  by_contra! hfew
  exact hold ((newest_of_card_le hfew.le).symm ▸ hthere)

/-- Retention in a directory whose own file is complete. -/
theorem survives_pruned (hown : SameAt (· ≠ own) t v)
    (hmade : ∃ c, v.content? own = some c ∧ made c)
    (hpruned : SameAt (fun q => ¬ IsSurplus v d pattern keep q) v u) :
    Survives made d pattern keep own t u := by
  refine survives_of_replaced fun x hx hxown hne => ?_
  obtain ⟨hdot, hmatch, c, hc⟩ := mem_archives.mp hx
  have hthere : x ∈ archives v d pattern :=
    mem_archives.mpr ⟨hdot, hmatch, c, (hown _ hxown).trans hc⟩
  have hold : x ∉ newest keep.toNat (archives v d pattern) := by
    intro hnew
    refine hne ((hpruned _ ?_).trans (hown _ hxown))
    rintro ⟨y, -, hy, heq⟩
    obtain rfl : x = y := by simpa using heq
    exact hy hnew
  refine ⟨newest keep.toNat (archives v d pattern), fun y hy => (content?_of_pruned hpruned hy).1,
    card_newest_of_surplus hthere hold, fun y hy => ⟨lt_of_notMem_newest hthere hold hy, ?_⟩⟩
  have hkept := (content?_of_pruned hpruned hy).2
  by_cases hyown : d ++ [y] = own
  · obtain ⟨c, hc, hm⟩ := hmade
    exact .inr ⟨hyown, c, hkept.trans (hyown ▸ hc), hm⟩
  · exact .inl (hkept.trans (hown _ hyown))

end Survives

/-- A program that writes one file and then prunes, wherever it is cut off: the file is complete
before anything is deleted. -/
theorem write_prune_survives {env : Env} {dir : Path} {pattern : String} {keep : Int}
    {made : Content → Prop} {own : List Component} {write : Prog Unit} {w : World}
    (hwrite : write.Performs (E := Sys) (SparesAt env.cwd (· ≠ own)))
    (hmade : ∀ v, write.run env.handler w = (.ok (), v) →
      ∃ c, v.files.content? own = some c ∧ made c) :
    (write.bind fun _ => (applyRetention dir pattern keep).bind fun _ => pure ()).Always
      env.handler (fun u => Survives made (dir.locate env.cwd) pattern keep own w.files u.files)
      w := by
  have hwriting := always_sameAt (w := w) hwrite rfl
  refine (hwriting.mono fun u hu => survives_of_replaced fun x _ hx hne =>
    absurd (hu _ hx) hne).bind fun _ v hv => ?_
  have hown := hwriting.final
  rw [hv] at hown
  exact ((applyRetention_always env dir pattern keep v).mono fun u hu =>
    survives_pruned hown (hmade v hv) hu).bind_ret fun _ => ()

/-- Such a program touches nothing else. -/
theorem write_prune_sameAt {env : Env} {dir : Path} {pattern : String} {keep : Int}
    {own : List Component} {write : Prog Unit} {w : World}
    (hwrite : write.Performs (E := Sys) (SparesAt env.cwd (· ≠ own))) :
    (write.bind fun _ => (applyRetention dir pattern keep).bind fun _ => pure ()).Always
      env.handler (fun u => SameAt (fun q => q ≠ own ∧ ¬ InSeries (dir.locate env.cwd) pattern q)
        w.files u.files) w := by
  have hwriting := always_sameAt (w := w) hwrite rfl
  refine (hwriting.mono fun u hu q hq => hu q hq.1).bind fun _ v hv => ?_
  have hown := hwriting.final
  rw [hv] at hown
  refine ((applyRetention_always env dir pattern keep v).mono fun u hu q hq => ?_).bind_ret
    fun _ => ()
  refine (hu q ?_).trans (hown q hq.1)
  rintro ⟨x, hx, -, rfl⟩
  exact hq.2 (inSeries_of_mem hx)

end SrvBackup.Specification
