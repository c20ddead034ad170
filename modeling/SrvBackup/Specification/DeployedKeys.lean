import SrvBackup.Adapters.KeysCommand
import SrvBackup.Specification.Isolation
import SrvBackup.Specification.Rerun

/-!
# Backups use the keys that were deployed

Once the command that sets up keys has succeeded, the key that a backup gives to ssh is there, and
the public half of it is in the `authorized_keys` file behind the destination of every command that
the backup starts (`backups_use_deployed_keys`).
-/
namespace SrvBackup.Specification

open SrvBackup.Domain SrvBackup.Effects SrvBackup.Storage SrvBackup.Text SrvBackup.Adapters

/-! ## The command -/

section Command

variable {F : Type} [DecidableEq F] {cluster : Cluster F} {rule : Path.Pathlib} {env : KeyEnv F}
  {settings : KeySettings} {servers : List ServerConfig} {w w' : KeyWorld F}

/-- Every server gets a result, whatever became of it. -/
theorem setupEach_results (rule : Path.Pathlib) (settings : KeySettings)
    (servers : List ServerConfig) (results : KeyResults) :
    (setupEach rule settings servers results).Returns fun results' =>
      ∀ name, name ∈ results ∨ name ∈ servers.map (·.name) → name ∈ results' := by
  induction servers generalizing results with
  | nil => exact Program.returns_ret fun name h => h.resolve_right (by simp)
  | cons server servers ih =>
    refine (Program.returns_true _).bind fun ok _ => ?_
    refine (ih (results.insert server.name ok)).mono fun r h results' hr name hname =>
      h results' hr name ?_
    rw [AList.mem_insert]
    rcases hname with h | h
    · exact .inl (.inr h)
    · rw [List.map_cons, List.mem_cons] at h
      exact h.elim (fun h => .inl (.inl h)) .inr

theorem all_sortedItems {results : KeyResults} (h : (sortedItems results).all (·.2))
    {name : String} (hname : name ∈ results) : results.lookup name = some true := by
  obtain ⟨ok, hok⟩ := Option.isSome_iff_exists.mp (AList.lookup_isSome.mpr hname)
  have hitem : (name, ok) ∈ sortedItems results := by
    rw [sortedItems, List.mem_insertionSort]
    exact List.mem_map.mpr ⟨⟨name, ok⟩, AList.mem_lookup_iff.mp hok, rfl⟩
  rw [hok]
  exact congrArg some (List.all_eq_true.mp h _ hitem)

theorem setupKeysCommand_succeeds {σ : Type} {h : Handler KeySys σ} {settings : BackupSettings}
    {s t : σ} {lines : List (String × Bool)}
    (hrun : (setupKeysCommand servers (.ok settings)).run (keysCommandHandler rule h) (s, []) =
      (.ok (), (t, lines))) :
    ∃ results, (setupKeys rule settings.keySettings servers).run h s = (.ok results, t) ∧
      ∀ server ∈ servers, results.lookup server.name = some true := by
  by_cases hboot : settings.bootstrapKey = ""
  · simp only [setupKeysCommand, raising, Program.bind_eq, Program.bind_ret, if_pos hboot] at hrun
    rw [Program.run_bind_ok (KeysCommand.run_echo _ _ _ _)] at hrun
    cases hrun
  rw [run_setupKeysCommand hboot] at hrun
  rcases hkeys : (setupKeys rule settings.keySettings servers).run h s with ⟨e | results, u⟩
  · rw [hkeys] at hrun
    cases hrun
  · rw [hkeys] at hrun
    obtain ⟨hend, hstate⟩ := Prod.mk.inj hrun
    have hall : (sortedItems results).all (·.2) := by
      by_contra hall
      rw [if_neg hall] at hend
      cases hend
    obtain ⟨_, v, -, heach⟩ := Program.run_bind_eq_ok hkeys
    have hresults := (setupEach_results rule settings.keySettings servers ∅).run h v
    rw [heach] at hresults
    refine ⟨results, by rw [(Prod.mk.inj hstate).1], fun server hserver => ?_⟩
    exact all_sortedItems hall (hresults results rfl _ (.inr (List.mem_map_of_mem hserver)))

/-- A successful call leaves, for each server, both halves of its key pair, and the public one on
the host. -/
theorem deployed_of_setupKeys (hnames : ∀ s ∈ servers, '/' ∉ s.name.toList)
    (hdistinct : (servers.map (·.name)).Nodup)
    (hsuffix : ∀ s ∈ servers, s.isLocal = false → NoSuffix rule settings s)
    (hlines : PublicKeyLines cluster rule settings servers env w.files) {results : KeyResults}
    (hrun : (setupKeys rule settings servers).run (env.handler cluster) w = (.ok results, w'))
    (hsuccess : ∀ s ∈ servers, results.lookup s.name = some true) {s : ServerConfig}
    (hs : s ∈ servers) (hlocal : s.isLocal = false) :
    w'.files.has (keyLocation cluster.cwd settings s) ∧ ∃ text,
      w'.files.content? (generatedLocation cluster.cwd settings s) = some text ∧
        HoldsKey w'.authorized (authorizedFile cluster settings s) (strip text) := by
  have hlast : DeploymentsLast cluster rule settings servers w.files :=
    deploymentsLast_of_noSuffix hnames hdistinct hsuffix w.files
  have hown : deployedLocation cluster.cwd rule settings s =
      generatedLocation cluster.cwd settings s :=
    (deployedLocation_eq_iff (hnames s hs)).mpr (hsuffix s hs hlocal)
  have hread : ∀ r ∈ servers, r.isLocal = false → ∀ text,
      w'.files.content? (deployedLocation cluster.cwd rule settings r) = some text →
        KeyLine (strip text) := by
    intro r hr hremote
    have hperf : (setupKeys rule settings servers).Performs (E := KeySys)
        (GeneratesFor settings servers) :=
      ⟨fun _ _ h _ => (by cases h), fun x => (Keys.performs_raiseOS x).bind fun _ =>
        setupEach_generatesFor rule settings servers ∅⟩
    have hkept := keyLine_of_run hperf hlast hlines.generated hr hremote (hlines.there r hr hremote)
    rwa [hrun] at hkept
  obtain ⟨_, u, hmkdir, hrest⟩ := Program.run_bind_eq_ok hrun
  have hdeployed := deployed_of_setupEach hrest hdistinct hsuccess
    (KeyEnv.grows_of_run hmkdir).has hlast hread hs hlocal
  obtain ⟨pre, post, hsplit⟩ := List.append_of_mem hs
  obtain ⟨_, v, between, -, hturn, hafter⟩ := exists_turn hrest hdistinct hsuccess
    ⟨pre, hsplit.symm⟩
  obtain ⟨-, text, htext, -⟩ := KeyEnv.deployed_of_setupServer hlocal hturn
  -- No later turn generates the key pair of another server at this place.
  have hothers : ∀ r ∈ post, r.isLocal = false →
      generatedLocation cluster.cwd settings r ≠ deployedLocation cluster.cwd rule settings s ∨
        v.files.has (keyLocation cluster.cwd settings r) := by
    intro r hr _
    have hr' : r ∈ servers := by simp [hsplit, hr]
    refine .inl fun hloc => ?_
    have hname := name_eq_of_generatedLocation (hnames r hr') (hnames s hs) (hloc.trans hown)
    rw [hsplit, List.map_append, List.map_cons] at hdistinct
    have hfirst := (List.nodup_cons.mp (List.nodup_append.mp hdistinct).2.1).1
    exact hfirst (hname ▸ List.mem_map_of_mem hr)
  have hkept : ((setupEach rule settings post between).run (env.handler cluster) v).2.files.content?
      (deployedLocation cluster.cwd rule settings s) = some text :=
    content?_setupEach hothers htext
  rw [hafter] at hkept
  exact ⟨hdeployed.has, text, hown ▸ hkept, (hdeployed.held text hkept).2⟩

end Command

/-! ## What a backup starts -/

section Opens

variable {server : ServerConfig} {ssh : Ssh}

/-- What the operation starts. -/
def startedBy : Op → Option Invocation
  | .run cmd => some cmd
  | .popen cmd _ => some cmd
  | _ => none

/-- What the operation starts, if anything, is an ssh call with this key and to this destination. -/
def OpensWith (key destination : String) (o : Op) : Prop :=
  ∀ cmd ∈ startedBy o, ∃ options command,
    cmd = .argv (["ssh", "-i", key] ++ options ++ [destination, command])

theorem opensWith_argv {o : Op} {command : String} {options : List String}
    (ho : startedBy o = some (.argv (buildSshCmd server.hostname command ssh options))) :
    OpensWith ssh.key (ssh.user ++ "@" ++ server.hostname) o := by
  rintro cmd hcmd
  rw [ho] at hcmd
  cases hcmd
  exact ⟨["-o", "ConnectTimeout=" ++ toString ssh.timeout] ++ sshBaseOpts ++ options, command,
    by simp [buildSshCmd]⟩

theorem opensWith_of_startedBy {key destination : String} {o : Op} (ho : startedBy o = none) :
    OpensWith key destination o := by
  rintro cmd hcmd
  rw [ho] at hcmd
  cases hcmd

theorem opensWith_run (hremote : server.isLocal = false) (command : String) :
    OpensWith ssh.key (ssh.user ++ "@" ++ server.hostname)
      (.run (runInvocation server command ssh)) := by
  simp only [runInvocation, hremote, Bool.false_eq_true, if_false]
  exact opensWith_argv rfl

theorem opensWith_dir (d : Path) :
    DirFootprint (OpensWith ssh.key (ssh.user ++ "@" ++ server.hostname)) d := by
  constructor <;> intros <;> exact opensWith_of_startedBy rfl

theorem pipeFrom_opens (hremote : server.isLocal = false) (command : String) (path : Path) :
    (pipeFrom server command path ssh).Performs (E := Sys)
      (OpensWith ssh.key (ssh.user ++ "@" ++ server.hostname)) := by
  simp only [pipeFrom, hremote, Bool.false_eq_true, if_false, sshPipeToFile]
  exact pipeToFile_performs _ _ (opensWith_of_startedBy rfl) (opensWith_of_startedBy rfl)
    (opensWith_argv rfl) (opensWith_of_startedBy rfl)

theorem backupConfig_opens (hremote : server.isLocal = false) (backupDir : Path)
    (configPaths excludePatterns : List String) (retentionCount : Int) (dryRun : Bool) :
    (backupConfig server backupDir configPaths excludePatterns ssh retentionCount
      dryRun).Performs (E := Sys) (OpensWith ssh.key (ssh.user ++ "@" ++ server.hostname)) := by
  refine (performs_now (opensWith_of_startedBy rfl)).bind fun t => ?_
  dsimp only
  split
  · trivial
  · exact (pipeFrom_opens hremote _ _).bind fun _ =>
      (performs_stat (opensWith_of_startedBy rfl)).bind fun _ =>
        (applyRetention_performs _ retentionCount (opensWith_dir _)).bind fun _ => trivial

theorem backupPackages_opens (hremote : server.isLocal = false) (backupDir : Path)
    (retentionCount : Int) (dryRun : Bool) :
    (backupPackages server backupDir ssh retentionCount dryRun).Performs (E := Sys)
      (OpensWith ssh.key (ssh.user ++ "@" ++ server.hostname)) := by
  refine (performs_now (opensWith_of_startedBy rfl)).bind fun t =>
    Program.performs_forEach fun dump _ => ?_
  unfold savePackageDump
  split
  · trivial
  refine (runAndCapture_performs (opensWith_run hremote _)).bind fun stdout => ?_
  refine Program.Performs.bind ⟨opensWith_of_startedBy rfl, performs_raiseOS⟩ fun _ => ?_
  refine Program.Performs.bind ⟨opensWith_of_startedBy rfl, performs_raiseOS⟩ fun _ => ?_
  exact (applyRetention_performs _ retentionCount (opensWith_dir _)).bind fun _ => trivial

theorem backupZfs_opens (hremote : server.isLocal = false) (backupDir : Path)
    (retentionCount : Int) (dryRun : Bool) :
    (backupZfs server backupDir ssh retentionCount dryRun).Performs (E := Sys)
      (OpensWith ssh.key (ssh.user ++ "@" ++ server.hostname)) := by
  have hrun : ∀ command, OpensWith ssh.key (ssh.user ++ "@" ++ server.hostname)
      (.run (runInvocation server command ssh)) := opensWith_run hremote
  refine (performs_now (opensWith_of_startedBy rfl)).bind fun t => ?_
  dsimp only
  split
  · trivial
  refine (cleanupStaleSnapshots_performs hrun).bind fun _ => ?_
  refine (performs_exceptSSH (runCmd_performs (hrun _))
    fun _ => Program.performs_raise _).bind fun _ => ?_
  refine Program.Performs.bind (Program.Performs.finallyDo ?_
    (performs_exceptSSH (runCmd_performs (hrun _)) fun _ => Program.performs_ret ())) fun _ => ?_
  · exact (performs_exceptSSH (pipeFrom_opens hremote _ _) fun _ => Program.performs_raise _).bind
      fun _ => (performs_stat (opensWith_of_startedBy rfl)).bind fun _ => trivial
  · exact (applyRetention_performs _ retentionCount (opensWith_dir _)).bind fun _ => trivial

/-- All that a run for a remote server starts are ssh calls with the key of the server. -/
theorem backupServer_opens (hremote : server.isLocal = false) (settings : BackupSettings)
    (types : BackupType) (dryRun : Bool) :
    (backupServer backupSteps server (.ok settings) types dryRun).Performs (E := Sys)
      (OpensWith (sshFor server settings).key
        ((sshFor server settings).user ++ "@" ++ server.hostname)) :=
  backupServer_performs (opensWith_of_startedBy rfl)
    (fun _ => ⟨backupConfig_opens hremote _ _ _ _ _, backupPackages_opens hremote _ _ _⟩)
    fun _ => backupZfs_opens hremote _ _ _

end Opens

/-! ## A pool after the command -/

section Pool

variable {F : Type} [DecidableEq F] {cluster : Cluster F} {rule : Path.Pathlib}
  {keyEnv : KeyEnv F} {servers : List ServerConfig} {settings : BackupSettings} {w w' : KeyWorld F}
  {types : BackupType} {dryRun : Bool} {env : Fin servers.length → Env} {files : Files}
  {width : Nat} {c : Pool Sys Error BackupResult (Machine servers.length) servers.length}

/-- What the operations of all runs have in common their logs have. -/
theorem PoolReaches.log {P : Fin servers.length → Op → Prop}
    (hc : PoolReaches servers settings types dryRun env files width c)
    (hperf : ∀ i, (backupServer backupSteps (servers.get i) (.ok settings) types dryRun).Performs
      (E := Sys) (P i)) (i : Fin servers.length) : ∀ ev ∈ c.shared.log i, P i ev.op := by
  refine (hc.preserves_shared (P := P) (J := fun m : Machine servers.length =>
    ∀ i, ∀ ev ∈ m.log i, P i ev.op) ?_ hperf fun _ _ h => by cases h).2 i
  -- A step puts its operation on top of the log of its own run.
  intro i o m ho hm j ev hev
  by_cases hji : j = i
  · subst hji
    have hlog : (poolHandler env j o m).2.log j =
        ⟨o, ((env j).handler o (m.world j)).1⟩ :: m.log j := Function.update_self ..
    rw [hlog] at hev
    rcases List.mem_cons.mp hev with rfl | hev
    · exact ho
    · exact hm j ev hev
  · exact hm j ev (Machine.log_put_of_ne m hji _ ▸ hev)

/-- After a successful command, whatever a backup as root starts for a remote server is an ssh call
with the key of that server, whose two halves are there and whose public one is in the
`authorized_keys` file behind the destination. -/
theorem backups_use_deployed_keys (hnames : ∀ s ∈ servers, '/' ∉ s.name.toList)
    (hdistinct : (servers.map (·.name)).Nodup)
    (hsuffix : ∀ s ∈ servers, s.isLocal = false → NoSuffix rule settings.keySettings s)
    (hlines : PublicKeyLines cluster rule settings.keySettings servers keyEnv w.files)
    {lines : List (String × Bool)}
    (hkeys : (setupKeysCommand servers (.ok settings)).run
      (keysCommandHandler rule (keyEnv.handler cluster)) (w, []) = (.ok (), (w', lines)))
    (hroot : settings.sshUser = "root")
    (hc : PoolReaches servers settings types dryRun env files width c) {i : Fin servers.length}
    (hremote : (servers.get i).isLocal = false) :
    ∃ text, w'.files.has ((Path.ofString (resolveSshKey (servers.get i) settings.sshKeyDir
        settings.sshKeyPrefix)).locate cluster.cwd) ∧
      w'.files.content? ((backupPublicKey (servers.get i) settings.sshKeyDir
        settings.sshKeyPrefix).locate cluster.cwd) = some text ∧
      HoldsKey w'.authorized (cluster.store ("root@" ++ (servers.get i).hostname)
        settings.authorizedKeysPath) (strip text) ∧
      ∀ ev ∈ c.shared.log i, OpensWith (resolveSshKey (servers.get i) settings.sshKeyDir
        settings.sshKeyPrefix) ("root@" ++ (servers.get i).hostname) ev.op := by
  obtain ⟨results, hrun, hsuccess⟩ := setupKeysCommand_succeeds hkeys
  obtain ⟨hhas, text, htext, hheld⟩ := deployed_of_setupKeys hnames hdistinct hsuffix hlines hrun
    hsuccess (List.get_mem servers i) hremote
  refine ⟨text, ?_, htext, hheld, ?_⟩
  · rw [resolveSshKey, Path.ofString_str]
    exact hhas
  · have hperf : ∀ j, (backupServer backupSteps (servers.get j) (.ok settings) types
        dryRun).Performs (E := Sys) (fun o => (servers.get j).isLocal = false →
          OpensWith (sshFor (servers.get j) settings).key
            ((sshFor (servers.get j) settings).user ++ "@" ++ (servers.get j).hostname) o) := by
      intro j
      by_cases hlocal : (servers.get j).isLocal = false
      · exact (backupServer_opens hlocal settings types dryRun).mono fun o ho _ => ho
      · exact (Program.performs_true _).mono fun o _ h => absurd h hlocal
    intro ev hev
    have hopens := hc.log hperf i ev hev hremote
    rwa [sshFor, hroot] at hopens

end Pool

def bootSettings : BackupSettings :=
  { sampleSettings with sshKeyDir := "/k", sshKeyPrefix := "b", bootstrapKey := "/k/boot" }

def bootEnvs (_ : Fin plainServers.length) : Env := sampleEnv (.ok ⟨0, [31], ""⟩)

/-- Two remote servers without a key; the command makes both key pairs, and a backup follows. -/
theorem backups_use_deployed_keys_sample :
    ∃ w' lines c, (setupKeysCommand plainServers (.ok bootSettings)).run
        (keysCommandHandler .upTo313 (sampleKeyEnv.handler sampleCluster))
        (⟨∅, fun _ => none, []⟩, []) = (.ok (), (w', lines)) ∧
      PoolReaches plainServers bootSettings .all false bootEnvs ∅ 2 c ∧ c.Complete ∧
      ∀ ev ∈ c.shared.log ⟨0, by decide⟩, OpensWith "/k/b_px01" "root@px01.lan" ev.op := by
  have hok : ((setupKeysCommand plainServers (.ok bootSettings)).run
      (keysCommandHandler .upTo313 (sampleKeyEnv.handler sampleCluster))
      (⟨∅, fun _ => none, []⟩, [])).1 = .ok () := by decide +kernel
  rcases hkeys : (setupKeysCommand plainServers (.ok bootSettings)).run
    (keysCommandHandler .upTo313 (sampleKeyEnv.handler sampleCluster))
    (⟨∅, fun _ => none, []⟩, []) with ⟨r, w', lines⟩
  rw [hkeys] at hok
  obtain rfl : r = .ok () := hok
  obtain ⟨c, hc, hdone⟩ := Pool.exists_complete (h := poolHandler bootEnvs) (show 0 < 2 by decide)
    (c := Pool.initial (backupPool backupSteps plainServers (.ok bootSettings) .all false)
      ⟨∅, fun _ => []⟩) (Nat.zero_le _)
  obtain ⟨text, -, -, -, hopens⟩ := backups_use_deployed_keys (by decide) (by decide)
    (by decide +kernel) ⟨fun _ _ _ _ h => (by cases h), fun _ _ _ h => (by cases h; decide)⟩ hkeys
    rfl hc (i := ⟨0, by decide⟩) rfl
  exact ⟨w', lines, c, rfl, hc, hdone, hopens⟩

end SrvBackup.Specification
