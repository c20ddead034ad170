import SrvBackup.Specification.Outcomes

/-!
# Exit code 0

A step that returns has delivered: its own file is complete, unless retention has put it away again
because there are enough files with greater names (`Delivered`). When the backup command succeeds,
it has delivered every archive that it attempted, of every server that it was asked for, whatever
has failed on the way and whatever the schedule was (`backupCommand_delivers`).
-/
namespace SrvBackup.Specification

open SrvBackup.Domain SrvBackup.Effects SrvBackup.Storage SrvBackup.Text SrvBackup.Adapters

/-- The own file is there and complete, or `keep` files with greater names are there just as they
were before. -/
def Delivered (made : Content → Prop) (d : List Component) (pattern : String) (keep : Int)
    (own : List Component) (t u : Files) : Prop :=
  (∃ c, u.content? own = some c ∧ made c) ∨
    ∃ x, own = d ++ [x] ∧ ∃ S ⊆ archives u d pattern, S.card = keep.toNat ∧
      ∀ y ∈ S, x < y ∧ u.content? (d ++ [y]) = t.content? (d ++ [y])

section Delivered

variable {made : Content → Prop} {d : List Component} {pattern : String} {keep : Int}
  {own : List Component} {t u v : Files}

/-- Retention in a directory whose own file is complete. -/
theorem delivered_pruned (hown : SameAt (· ≠ own) t v)
    (hmade : ∃ c, v.content? own = some c ∧ made c)
    (hpruned : SameAt (fun q => ¬ IsSurplus v d pattern keep q) v u) :
    Delivered made d pattern keep own t u := by
  by_cases hsurplus : IsSurplus v d pattern keep own
  · obtain ⟨x, hthere, hold, rfl⟩ := hsurplus
    refine .inr ⟨x, rfl, _, fun y hy => (content?_of_pruned hpruned hy).1,
      card_newest_of_surplus hthere hold, fun y hy => ?_⟩
    have hlater : x < y := lt_of_notMem_newest hthere hold hy
    refine ⟨hlater, (content?_of_pruned hpruned hy).2.trans (hown _ fun heq => ?_)⟩
    obtain rfl : y = x := by simpa using heq
    exact lt_irrefl _ hlater
  · obtain ⟨c, hc, hm⟩ := hmade
    exact .inl ⟨c, (hpruned own hsurplus).trans hc, hm⟩

theorem Delivered.after (h : SameAt (InSeries d pattern) t v)
    (hs : Delivered made d pattern keep own v u) : Delivered made d pattern keep own t u := by
  refine hs.imp id fun ⟨x, hx, S, hS, hcard, hlater⟩ => ⟨x, hx, S, hS, hcard, fun y hy => ?_⟩
  rw [← h _ (inSeries_of_mem (hS hy))]
  exact hlater y hy

theorem Delivered.before (hs : Delivered made d pattern keep own t v)
    (h : SameAt (InSeries d pattern) v u) (hown : u.content? own = v.content? own) :
    Delivered made d pattern keep own t u := by
  refine hs.imp (fun ⟨c, hc, hm⟩ => ⟨c, hown.trans hc, hm⟩) ?_
  rintro ⟨x, hx, S, hS, hcard, hlater⟩
  refine ⟨x, hx, S, archives_congr h ▸ hS, hcard, fun y hy => ?_⟩
  rw [h _ (inSeries_of_mem (hS hy))]
  exact hlater y hy

/-- Where no file with a greater name was, the own file is there. -/
theorem Delivered.complete (hs : Delivered made d pattern keep own t u) (hkeep : 1 ≤ keep)
    (hlatest : ∀ y ∈ archives t d pattern, ∀ x, own = d ++ [x] → ¬ x < y) :
    ∃ c, u.content? own = some c ∧ made c := by
  rcases hs with hown | ⟨x, hx, S, hS, hcard, hlater⟩
  · exact hown
  · obtain ⟨y, hy⟩ : S.Nonempty := Finset.card_pos.mp (by omega)
    obtain ⟨hdot, hmatch, c, hc⟩ := mem_archives.mp (hS hy)
    have hold : y ∈ archives t d pattern :=
      mem_archives.mpr ⟨hdot, hmatch, c, (hlater y hy).2.symm.trans hc⟩
    exact absurd (hlater y hy).1 (hlatest y hold x hx)

end Delivered

/-! ## The steps -/

section Step

variable {env : Env} {server : ServerConfig} {settings : BackupSettings} {series : Series}
  {dryRun : Bool}

/-- The run has delivered the file that one clock reading gives. -/
def DeliversArchive (env : Env) (server : ServerConfig) (settings : BackupSettings)
    (series : Series) (t u : Files) : Prop :=
  ∃ n, Delivered (series.Made env server settings (env.clock n))
    ((series.dir server settings.backupBaseDir).locate env.cwd) series.pattern
    (series.keep settings)
    (series.own env.cwd server settings.backupBaseDir (env.clock n)) t u

/-- What a step that has succeeded makes of its series. -/
def delivering (env : Env) (server : ServerConfig) (settings : BackupSettings) (series : Series) :
    Outcome (series.Holds env.cwd server settings.backupBaseDir) where
  Pre _ := True
  Rel succeeded t u := succeeded → DeliversArchive env server settings series t u
  pre_congr _ _ := trivial
  none _ := nofun
  after h hrel hok := by
    obtain ⟨n, hn⟩ := hrel hok
    exact ⟨n, hn.after (h.mono fun _ => .inl)⟩
  before hrel h hok := by
    obtain ⟨n, hn⟩ := hrel hok
    exact ⟨n, hn.before (h.mono fun _ => .inl) (h _ (.inr ⟨_, rfl⟩))⟩

/-- A program that writes the file of the series and then prunes has delivered if it returns. -/
theorem Produces.delivered {time : DateTime} {p : Prog Unit}
    (hp : Produces env server settings series time p) {w u : World}
    (hrun : p.run env.handler w = (.ok (), u)) :
    Delivered (series.Made env server settings time)
      ((series.dir server settings.backupBaseDir).locate env.cwd) series.pattern
      (series.keep settings) (series.own env.cwd server settings.backupBaseDir time)
      w.files u.files := by
  obtain ⟨write, rfl, hwrite, hmade⟩ := hp
  obtain ⟨_, v, hwritten, hrest⟩ := Program.run_bind_eq_ok hrun
  obtain ⟨deleted, x, hretention, hret⟩ := Program.run_bind_eq_ok hrest
  obtain rfl : x = u := (Prod.mk.inj hret).2
  have hown := (always_sameAt (w := w) hwrite rfl).final
  rw [hwritten] at hown
  have hpruned := (applyRetention_always env (series.dir server settings.backupBaseDir)
    series.pattern (series.keep settings) v).final
  rw [hretention] at hpruned
  exact delivered_pruned hown (hmade w v hwritten) hpruned

/-- The step of an archived series looks at the clock and produces the file. -/
theorem step_produces (env : Env) (server : ServerConfig) (settings : BackupSettings)
    (harchived : series.Archived) :
    ∃ f, series.step server settings false = now.bind f ∧
      ∀ t, Produces env server settings series t (f t) := by
  cases harchived with
  | config =>
    simp only [Series.step, backupSteps, backupConfig_eq]
    exact ⟨_, rfl, fun t => produces_config env server settings t⟩
  | snapshots =>
    simp only [Series.step, backupSteps, backupZfs_eq]
    exact ⟨_, rfl, fun t => produces_snapshot env server settings t⟩

theorem step_delivering (harchived : series.Archived) :
    (delivering env server settings series).OfStep env dryRun
      (series.step server settings dryRun) := by
  cases dryRun with
  | true => cases harchived <;> exact Outcome.ofStep_dryRun
  | false =>
    obtain ⟨f, hf, hproduces⟩ := step_produces env server settings harchived
    rw [hf]
    refine Outcome.ofStep_now fun n w _ => ?_
    rcases hrun : (f (env.clock n)).run env.handler w with ⟨e | _, u⟩
    · exact nofun
    · exact fun _ => ⟨n, (hproduces (env.clock n)).delivered hrun⟩

end Step

/-! ## The command -/

section Command

variable {servers : List ServerConfig} {settings : BackupSettings} {types : BackupType}
  {cwd : List Component} {env : Fin servers.length → Env} {files : Files}

/-- An archive that was attempted has been delivered if the summary says that its step succeeded. -/
theorem backupAll_delivers (hservers : ServersApart servers) (hcwd : ∀ i, (env i).cwd = cwd)
    {maxParallel : Int} {summary : BackupSummary} {m : Machine servers.length}
    (h : BackupAllEnds backupSteps servers (.ok settings) types maxParallel false env files
      (.ok summary) m) {series : Series} (harchived : series.Archived) {i : Fin servers.length}
    (hattempted : series.attempted types (servers.get i)) :
    ∃ r ∈ summary.results, r.server = (servers.get i).name ∧ (¬ r.hasErrors → series.okIn r) ∧
      (series.okIn r → DeliversArchive (env i) (servers.get i) settings series files m.files) := by
  obtain ⟨r, hr, hname, hok, hrel⟩ := backupAll_outcome
    (delivering (env i) (servers.get i) settings series) hservers
    (fun j => (hcwd j).trans (hcwd i).symm) harchived (step_delivering harchived) trivial h
  exact ⟨r, hr, hname, hok hattempted, fun hokIn => hrel (by rw [hattempted, hokIn]; rfl)⟩

/-- Only a summary without failures gives exit code 0. -/
theorem summary_of_success {MailConfig : Type} {services : MailServices MailConfig}
    {configured : List ServerConfig} {name : Option String} {dryRun : Bool}
    {backupAll : List ServerConfig → BackupSettings → Except Error BackupSummary}
    {log : List (CommandOp MailConfig)}
    (hrun : (backupCommand configured name types dryRun (.ok settings)).run
      (commandHandler backupAll services) [] = (.ok (), log)) :
    ∃ summary, backupAll (selectServers configured name) settings = .ok summary ∧
      summary.allOk := by
  have hcode := code_backupCommand configured name types dryRun (.ok settings) backupAll
    services []
  rw [hrun] at hcode
  by_cases hselect : selectServers configured name = []
  · simp only [cliBackup, hselect, if_true] at hcode
    split at hcode <;> cases hcode
  cases hend : backupAll (selectServers configured name) settings with
  | error e =>
    simp only [cliBackup, hselect, if_false, hend, bind, Except.bind] at hcode
    split at hcode <;> cases hcode
  | ok summary =>
    rw [cliBackup_exit hselect dryRun settings hend services] at hcode
    refine ⟨summary, rfl, ?_⟩
    by_contra hfailed
    rw [if_neg hfailed] at hcode
    cases hcode

/-- When the command succeeds, and the run is not a dry one, every archive that was attempted of
every selected server has been delivered. -/
theorem backupCommand_delivers {MailConfig : Type} {services : MailServices MailConfig}
    {configured : List ServerConfig} {name : Option String}
    (hselect : selectServers configured name = servers) (hservers : ServersApart servers)
    (hcwd : ∀ i, (env i).cwd = cwd)
    {backupAll : List ServerConfig → BackupSettings → Except Error BackupSummary}
    {m : Machine servers.length}
    (h : BackupAllEnds backupSteps servers (.ok settings) types settings.maxParallel false env
      files (backupAll servers settings) m) {log : List (CommandOp MailConfig)}
    (hrun : (backupCommand configured name types false (.ok settings)).run
      (commandHandler backupAll services) [] = (.ok (), log))
    {series : Series} (harchived : series.Archived) {i : Fin servers.length}
    (hattempted : series.attempted types (servers.get i)) :
    DeliversArchive (env i) (servers.get i) settings series files m.files := by
  obtain ⟨summary, hend, hallOk⟩ := summary_of_success hrun
  rw [hselect] at hend
  rw [hend] at h
  obtain ⟨r, hr, -, hok, hdelivers⟩ := backupAll_delivers hservers hcwd h harchived hattempted
  have hresult : (!r.hasErrors) = true := List.all_eq_true.mp hallOk r hr
  exact hdelivers (hok (by simpa using hresult))

end Command

def sampleMail : MailServices Unit := ⟨.ok (), fun _ _ _ => .ok ()⟩

/-- The two servers are backed up for the first time, and the command succeeds. -/
theorem backupCommand_delivers_sample :
    ∃ r m log, BackupAllEnds backupSteps apartServers (.ok sampleSettings) .all 2 false sampleEnvs ∅
        r m ∧
      (backupCommand apartServers none .all false (.ok sampleSettings)).run
        (commandHandler (fun _ _ => r) sampleMail) [] = (.ok (), log) ∧
      ∃ c, m.files.content? (Series.snapshots.own [] sampleServer sampleBase sampleTime) = some c ∧
        Series.snapshots.Made (sampleEnv (.ok ⟨0, [31], ""⟩)) sampleServer sampleSettings sampleTime
          c := by
  have hstart : Pool.Reaches (poolHandler sampleEnvs) (2 : Int).toNat
      (backupStart backupSteps apartServers (.ok sampleSettings) .all false ∅) _ := .refl
  obtain ⟨d, summary, -, hends, -⟩ := exists_backupAllEnds (show (0 : Int) < 2 by decide) hstart
  have hok : summary.allOk := by
    rw [allOk_alone serversApart_sample (fun _ => show _ = [] from rfl) hends]
    decide +kernel
  have hrun : (backupCommand apartServers none .all false (.ok sampleSettings)).run
      (commandHandler (fun _ _ => .ok summary) sampleMail) [] =
        (if summary.allOk then .ok () else .error (.exit .generalError), _) :=
    run_backupCommand (by decide) rfl
  rw [if_pos hok] at hrun
  have hselect : selectServers apartServers none = apartServers := rfl
  obtain ⟨n, hn⟩ := backupCommand_delivers hselect serversApart_sample
    (fun _ => show _ = [] from rfl) hends hrun .snapshots (i := ⟨0, by decide⟩) (by decide)
  obtain ⟨c, hc, hmade⟩ := hn.complete (by decide) fun y hy => by
    obtain ⟨-, -, c, hc⟩ := mem_archives.mp hy
    cases hc
  exact ⟨_, _, _, hends, hrun, c, hc, hmade⟩

end SrvBackup.Specification
