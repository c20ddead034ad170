import SrvBackup.Adapters.KeyRuns
import SrvBackup.Adapters.Orchestrator

/-!
# Which public key a server gets

`resolveSshKey` and `ssh-keygen` append to the text of the private key's path, while the
deployment replaces the suffix of its last name. The two agree for a server exactly if the name
of its key file has no suffix.
-/
namespace SrvBackup.Specification

open SrvBackup.Domain SrvBackup.Effects SrvBackup.Storage SrvBackup.Text SrvBackup.Adapters

/-- Where the private key of a server is. -/
def keyLocation (cwd : List Component) (settings : KeySettings) (server : ServerConfig) :
    List Component :=
  (settings.keyFile server).locate cwd

/-- Where `ssh-keygen` puts the public key of a server. -/
def generatedLocation (cwd : List Component) (settings : KeySettings) (server : ServerConfig) :
    List Component :=
  (Path.ofString ((settings.keyFile server).str ++ ".pub")).locate cwd

/-- Where the deployment to a server finds the public key. -/
def deployedLocation (cwd : List Component) (rule : Path.Pathlib) (settings : KeySettings)
    (server : ServerConfig) : List Component :=
  (publicKeyFile rule (settings.keyFile server)).locate cwd

/-- The public half of the key that the backup of a server uses. -/
def backupPublicKey (server : ServerConfig) (keyDir keyPrefix : String) : Path :=
  Path.ofString (resolveSshKey server keyDir keyPrefix ++ ".pub")

/-- The settings of a call with a key directory and a prefix. -/
def keySettings (keyDir keyPrefix bootstrapKey authorizedKeysPath : String) : KeySettings :=
  ⟨Path.ofString keyDir, keyPrefix, bootstrapKey, authorizedKeysPath⟩

/-- The operation looks for the key on the host of the server, or appends it there. -/
def Sends (settings : KeySettings) (server : ServerConfig) (key : String) (o : KeyOp) : Prop :=
  o = .run (keySshCmd settings.bootstrapKey "root" server.hostname
    (checkCommand key settings.authorizedKeysPath)) ∨
  o = .run (keySshCmd settings.bootstrapKey "root" server.hostname
    (appendCommand key settings.authorizedKeysPath))

/-- One turn of the loop of `setupKeys`. -/
structure Turn (F : Type) where
  server : ServerConfig
  before : KeyWorld F
  after : KeyWorld F

/-- The turns of the loop from a state, up to the first exception. -/
def turns {F : Type} (rule : Path.Pathlib) (settings : KeySettings)
    (h : Handler KeySys (KeyWorld F)) : List ServerConfig → KeyWorld F → List (Turn F)
  | [], _ => []
  | server :: servers, w =>
    let r := (setupServer rule settings server).run h w
    ⟨server, w, r.2⟩ :: match r.1 with
      | .ok _ => turns rule settings h servers r.2
      | .error _ => []

/-- Every key that the turn sends is the text of the public key file at `loc`. -/
def Turn.SendsTextAt {F : Type} (turn : Turn F) (settings : KeySettings) (loc : List Component) :
    Prop :=
  KeyEnv.Since (fun o => ∀ key, Sends settings turn.server key o →
    ∃ text, turn.after.files.content? loc = some text ∧ key = strip text) turn.before turn.after

/-- In whatever state the loop starts, and whatever it meets, each turn sends the server the public
half of the key that its backup uses. -/
def DeploysOwnKeys {F : Type} [DecidableEq F] (cluster : Cluster F) (rule : Path.Pathlib)
    (keyDir keyPrefix bootstrapKey authorizedKeysPath : String) (servers : List ServerConfig) :
    Prop :=
  ∀ (env : KeyEnv F) (w : KeyWorld F),
    ∀ turn ∈ turns rule (keySettings keyDir keyPrefix bootstrapKey authorizedKeysPath)
      (env.handler cluster) servers w,
      turn.SendsTextAt (keySettings keyDir keyPrefix bootstrapKey authorizedKeysPath)
        ((backupPublicKey turn.server keyDir keyPrefix).locate cluster.cwd)

/-- What the deployment replaces is what the key generation appends to. -/
def NoSuffix (rule : Path.Pathlib) (settings : KeySettings) (server : ServerConfig) : Prop :=
  rule.stem (settings.keyFile server).name = (settings.keyFile server).name

instance (rule : Path.Pathlib) (settings : KeySettings) (server : ServerConfig) :
    Decidable (NoSuffix rule settings server) := by
  unfold NoSuffix; infer_instance

/-! ## Names of key files -/

/-- The key file of a server lies in a directory that depends on the settings only, and its name
ends with the name of the server. -/
theorem exists_keyFile (settings : KeySettings) :
    ∃ (d : Path) (last : String), ∀ server : ServerConfig, '/' ∉ server.name.toList →
      ∃ z : Component, z.val = last ++ ("_" ++ server.name) ∧ z.val ≠ ".." ∧
        settings.keyFile server = d.child z := by
  obtain ⟨front, last, hlast, -, hdiv⟩ := Path.exists_div_append settings.keyDir settings.keyPrefix
  refine ⟨if Root.of settings.keyPrefix = .none
    then ⟨settings.keyDir.root, settings.keyDir.parts ++ front⟩
    else ⟨Root.of settings.keyPrefix, front⟩, last, fun server hserver => ?_⟩
  have hslash : '/' ∉ ("_" ++ server.name).toList := by simp [hserver]
  obtain ⟨z, hz, hdots⟩ := exists_component_of_mem (s := last ++ ("_" ++ server.name))
    (by simp [hlast, hserver]) (c := '_') (by simp) (by decide)
  refine ⟨z, hz, hdots, ?_⟩
  rw [← hdiv ("_" ++ server.name) z (by simp [← String.toList_inj]) hslash hz, KeySettings.keyFile,
    keyPath, String.append_assoc]

/-- The key files of a server lie in one directory. -/
theorem exists_keyLocations (cwd : List Component) (rule : Path.Pathlib)
    (settings : KeySettings) :
    ∃ (dir : List Component) (last : String), ∀ server : ServerConfig, '/' ∉ server.name.toList →
      ∃ x y z : Component,
        (keyLocation cwd settings server = dir ++ [x] ∧ x.val = last ++ ("_" ++ server.name)) ∧
        (generatedLocation cwd settings server = dir ++ [y] ∧ y.val = x.val ++ ".pub") ∧
        (deployedLocation cwd rule settings server = dir ++ [z] ∧
          z.val = rule.stem x.val ++ ".pub") ∧ (settings.keyFile server).name = x.val := by
  obtain ⟨d, last, hkey⟩ := exists_keyFile settings
  refine ⟨d.locate cwd, last, fun server hserver => ?_⟩
  obtain ⟨x, hx, hxdots, hpath⟩ := hkey server hserver
  obtain ⟨y, hy, hydots⟩ := exists_component (s := x.val ++ ".pub") (by simp [x.2.2.2]) (by simp)
  obtain ⟨z, hz, hzdots, hsuffix⟩ := Path.exists_withSuffix rule d x ".pub" (by decide) (by decide)
  refine ⟨x, y, z, ⟨?_, hx⟩, ⟨?_, hy⟩, ⟨?_, hz⟩, ?_⟩
  · rw [keyLocation, hpath, Path.locate_child _ _ hxdots]
  · rw [generatedLocation, hpath, Path.ofString_str_child d hy, Path.locate_child _ _ hydots]
  · rw [deployedLocation, hpath, publicKeyFile, hsuffix, Path.locate_child _ _ hzdots]
  · rw [hpath, Path.name_child]

section Locations

variable {cwd : List Component} {rule : Path.Pathlib} {settings : KeySettings}
  {server server' : ServerConfig}

theorem backupPublicKey_locate (cwd : List Component) (server : ServerConfig)
    (keyDir keyPrefix bootstrapKey authorizedKeysPath : String) :
    (backupPublicKey server keyDir keyPrefix).locate cwd =
      generatedLocation cwd (keySettings keyDir keyPrefix bootstrapKey authorizedKeysPath)
        server := rfl

theorem eq_of_append_val {dir : List Component} {x y : Component} {a b t : String}
    (h : dir ++ [x] = dir ++ [y]) (hx : x.val = a ++ t) (hy : y.val = b ++ t) : a = b := by
  have hxy : x = y := by simpa using h
  have hval : a ++ t = b ++ t := by rw [← hx, ← hy, hxy]
  simpa [← String.toList_inj] using hval

/-- Servers have their own public keys. -/
theorem name_eq_of_generatedLocation (hserver : '/' ∉ server.name.toList)
    (hserver' : '/' ∉ server'.name.toList)
    (h : generatedLocation cwd settings server = generatedLocation cwd settings server') :
    server.name = server'.name := by
  obtain ⟨dir, last, hlocations⟩ := exists_keyLocations cwd .upTo313 settings
  obtain ⟨x, y, -, ⟨-, hx⟩, ⟨hpub, hy⟩, -⟩ := hlocations server hserver
  obtain ⟨x', y', -, ⟨-, hx'⟩, ⟨hpub', hy'⟩, -⟩ := hlocations server' hserver'
  rw [hpub, hpub'] at h
  have hval := eq_of_append_val h hy hy'
  rw [hx, hx'] at hval
  simpa [← String.toList_inj] using hval

/-- The deployment to a server finds the public key beside the private key of it exactly if the
name of the private key has no suffix. -/
theorem deployedLocation_eq_iff (hserver : '/' ∉ server.name.toList) :
    deployedLocation cwd rule settings server = generatedLocation cwd settings server ↔
      NoSuffix rule settings server := by
  obtain ⟨dir, last, hlocations⟩ := exists_keyLocations cwd rule settings
  obtain ⟨x, y, z, -, ⟨hpub, hy⟩, ⟨hdeployed, hz⟩, hname⟩ := hlocations server hserver
  rw [hpub, hdeployed, NoSuffix, hname]
  constructor
  · intro h
    exact eq_of_append_val h hz hy
  · intro h
    have hzy : z = y := Subtype.ext (by rw [hz, hy, h])
    rw [hzy]

theorem deployedLocation_ne_nil (hserver : '/' ∉ server.name.toList) :
    deployedLocation cwd rule settings server ≠ [] := by
  obtain ⟨dir, last, hlocations⟩ := exists_keyLocations cwd rule settings
  obtain ⟨x, y, z, -, -, ⟨hdeployed, -⟩, -⟩ := hlocations server hserver
  simp [hdeployed]

/-- A private key is not its own public key. -/
theorem keyLocation_ne_generatedLocation (hserver : '/' ∉ server.name.toList) :
    keyLocation cwd settings server ≠ generatedLocation cwd settings server := by
  obtain ⟨dir, last, hlocations⟩ := exists_keyLocations cwd .upTo313 settings
  obtain ⟨x, y, -, ⟨hkey, -⟩, ⟨hpub, hy⟩, -⟩ := hlocations server hserver
  rw [hkey, hpub]
  intro h
  have hxy : x = y := by simpa using h
  rw [← hxy] at hy
  have hlen := congrArg (fun s : String => s.toList.length) hy
  simp at hlen

end Locations

/-! ## What a turn sends -/

section Turns

variable {F : Type} [DecidableEq F] {cluster : Cluster F} {env : KeyEnv F} {rule : Path.Pathlib}
  {settings : KeySettings} {server : ServerConfig}

theorem Sends.exists_command {key : String} {o : KeyOp} (h : Sends settings server key o) :
    ∃ command, o = .run (keySshCmd settings.bootstrapKey "root" server.hostname command) ∧
      command ≠ "hostname" := by
  rcases h with rfl | rfl
  · exact ⟨_, rfl, by simp [checkCommand, ← String.toList_inj]⟩
  · exact ⟨_, rfl, by simp [appendCommand, ← String.toList_inj]⟩

theorem Sends.eq_of_check {key key' : String}
    (h : Sends settings server key (.run (keySshCmd settings.bootstrapKey "root" server.hostname
      (checkCommand key' settings.authorizedKeysPath)))) : key = key' := by
  rcases h with h | h
  · exact (by simpa [keySshCmd, checkCommand, ← String.toList_inj] using h : key' = key).symm
  · simp [keySshCmd, checkCommand, appendCommand, ← String.toList_inj] at h

theorem Sends.eq_of_append {key key' : String}
    (h : Sends settings server key (.run (keySshCmd settings.bootstrapKey "root" server.hostname
      (appendCommand key' settings.authorizedKeysPath)))) : key = key' := by
  rcases h with h | h
  · simp [keySshCmd, checkCommand, appendCommand, ← String.toList_inj] at h
  · exact (by simpa [keySshCmd, appendCommand, ← String.toList_inj] using h : key' = key).symm

/-- What is sent after the key pair is there is the text that the deployment finds. -/
theorem deployAndTest_sends (w : KeyWorld F) :
    KeyEnv.Since (fun o => ∀ key, Sends settings server key o → ∃ text,
      w.files.content? (deployedLocation cluster.cwd rule settings server) = some text ∧
        key = strip text) w
      ((deployAndTest rule settings server).run (env.handler cluster) w).2 := by
  have hdeploy : KeyEnv.Since (fun o => ∀ key, Sends settings server key o → ∃ text,
      w.files.content? (deployedLocation cluster.cwd rule settings server) = some text ∧
        key = strip text) w
      ((deployPublicKey rule (settings.keyFile server) server.hostname settings.bootstrapKey
        settings.authorizedKeysPath).run (env.handler cluster) w).2 := by
    have hquiet : ∀ u : KeyWorld F, KeyEnv.Since (fun o => ∀ cmd, o ≠ .run cmd) w u →
        KeyEnv.Since (fun o => ∀ key, Sends settings server key o → ∃ text,
          w.files.content? (deployedLocation cluster.cwd rule settings server) = some text ∧
            key = strip text) w u := by
      refine fun u => KeyEnv.Since.mono fun o ho key hsends => ?_
      obtain ⟨command, hcmd, -⟩ := hsends.exists_command
      exact absurd hcmd (ho _)
    rcases KeyEnv.run_deployPublicKey rule (settings.keyFile server) server.hostname
      settings.bootstrapKey settings.authorizedKeysPath "root" w with
      ⟨r, u, hrun, -, -, -, hsince⟩ | ⟨text, u, hcontent, hrun, -, -, hsince⟩
    · rw [hrun]
      exact hquiet u hsince
    · rw [hrun]
      refine (hquiet u hsince).trans (KeyEnv.since_run (installKey_performs ?_ ?_) u)
      · exact fun key hsends => ⟨text, hcontent, hsends.eq_of_check⟩
      · exact fun key hsends => ⟨text, hcontent, hsends.eq_of_append⟩
  unfold deployAndTest
  rw [Program.bind_eq, Program.run_bind]
  split
  · next deployed u hrun =>
    rw [hrun] at hdeploy
    cases deployed with
    | false => exact hdeploy
    | true =>
      refine hdeploy.trans (KeyEnv.since_run (testKey_performs fun key hsends => ?_) u)
      obtain ⟨command, hcmd, hcommand⟩ := hsends.exists_command
      exact absurd (by simpa [keySshCmd] using hcmd : _ ∧ "hostname" = command).2.symm hcommand
  · next e u hrun =>
    rw [hrun] at hdeploy
    exact hdeploy

/-- Every key that a turn sends is the text that its deployment finds. -/
theorem setupServer_sends (w : KeyWorld F) :
    Turn.SendsTextAt ⟨server, w, ((setupServer rule settings server).run (env.handler cluster) w).2⟩
      settings (deployedLocation cluster.cwd rule settings server) := by
  unfold Turn.SendsTextAt
  dsimp only
  rw [setupServer_eq]
  split
  · exact .refl w
  · have hgenerate : KeyEnv.Since (fun o => ∀ key, ¬ Sends settings server key o) w
        ((generateKeypair (settings.keyFile server)
          ("proxmox-pbs-backup-pull-" ++ server.name)).run (env.handler cluster) w).2 := by
      refine KeyEnv.since_run (generateKeypair_performs ?_ ?_ ?_) w <;> intro key hsends <;>
        obtain ⟨command, hcmd, -⟩ := hsends.exists_command <;>
        simp [keygenCmd, keySshCmd] at hcmd
    rw [Program.run_bind]
    split
    · next generated u hrun =>
      rw [hrun] at hgenerate
      cases generated with
      | false => exact hgenerate.mono fun o ho key hsends => absurd hsends (ho key)
      | true =>
        refine (hgenerate.mono fun o ho key hsends => absurd hsends (ho key)).trans ?_
        rw [if_pos rfl, KeyEnv.files_run KeyEnv.deployAndTest_reads]
        exact deployAndTest_sends u
    · next e u hrun =>
      rw [hrun] at hgenerate
      exact hgenerate.mono fun o ho key hsends => absurd hsends (ho key)

theorem deployPublicKey_logs_check {w : KeyWorld F} {text : String}
    (hfault : ∀ o, env.fault o = none)
    (hcontent : w.files.content? (deployedLocation cluster.cwd rule settings server) =
      some text) :
    KeyEnv.Logged (.run (keySshCmd settings.bootstrapKey "root" server.hostname
      (checkCommand (strip text) settings.authorizedKeysPath))) w
      ((deployPublicKey rule (settings.keyFile server) server.hostname settings.bootstrapKey
        settings.authorizedKeysPath).run (env.handler cluster) w).2 := by
  have hfound : KeyEnv.Since (fun _ => True) w
      ⟨w.files, w.authorized, .readText (publicKeyFile rule (settings.keyFile server)) ::
        .pathExists (publicKeyFile rule (settings.keyFile server)) :: w.log⟩ :=
    ⟨[_, _], rfl, by simp⟩
  rw [KeyEnv.run_deployPublicKey_of_content (hfault _) hcontent]
  exact hfound.trans_logged (KeyEnv.logged_run_op _ _)

/-- A turn that finds a key pair and a readable text to deploy sends the text. -/
theorem setupServer_logs_check {w : KeyWorld F} {text : String} (hlocal : server.isLocal = false)
    (hfault : ∀ o, env.fault o = none)
    (hthere : w.files.has (keyLocation cluster.cwd settings server))
    (hcontent : w.files.content? (deployedLocation cluster.cwd rule settings server) =
      some text) :
    KeyEnv.Logged (.run (keySshCmd settings.bootstrapKey "root" server.hostname
      (checkCommand (strip text) settings.authorizedKeysPath))) w
      ((setupServer rule settings server).run (env.handler cluster) w).2 := by
  have hdeploy : ∀ u : KeyWorld F, u.files = w.files →
      KeyEnv.Logged (.run (keySshCmd settings.bootstrapKey "root" server.hostname
        (checkCommand (strip text) settings.authorizedKeysPath))) u
        ((deployAndTest rule settings server).run (env.handler cluster) u).2 := by
    intro u hu
    unfold deployAndTest
    rw [Program.bind_eq]
    exact KeyEnv.logged_run_bind (deployPublicKey_logs_check hfault (hu ▸ hcontent)) _
  rw [setupServer_eq, if_neg (by simp [hlocal]), Program.run_bind_ok
    (KeyEnv.run_generateKeypair hthere), if_pos rfl]
  have hexists : KeyEnv.Since (fun _ => True) w
      ⟨w.files, w.authorized, .pathExists (settings.keyFile server) :: w.log⟩ :=
    ⟨[_], rfl, by simp⟩
  exact hexists.trans_logged (hdeploy _ rfl)

end Turns

/-! ## Turns that change nothing -/

section Quiet

variable {F : Type} [DecidableEq F] {cluster : Cluster F} {rule : Path.Pathlib}
  {settings : KeySettings} {server : ServerConfig}

/-- No key pair can be generated; everything else works. -/
def quietEnv (F : Type) : KeyEnv F where
  keygen _ := .failed 1 (by decide) ""
  call _ := .answered
  answer _ := ⟨0, "", ""⟩
  refuses _ := false
  fault _ := none

/-- The run returns normally and leaves the local files. -/
def Quiet {α : Type} (cluster : Cluster F) (p : KeyProg α) (w : KeyWorld F) : Prop :=
  ∃ a w', p.run ((quietEnv F).handler cluster) w = (.ok a, w') ∧ w'.files = w.files

theorem Quiet.ret {α : Type} (a : α) (w : KeyWorld F) : Quiet cluster (.ret a) w :=
  ⟨a, w, rfl, rfl⟩

theorem Quiet.bind {α β : Type} {p : KeyProg α} {f : α → KeyProg β} {w : KeyWorld F}
    (hp : Quiet cluster p w) (hf : ∀ a u, u.files = w.files → Quiet cluster (f a) u) :
    Quiet cluster (p.bind f) w := by
  obtain ⟨a, u, hrun, hu⟩ := hp
  obtain ⟨b, v, hrun', hv⟩ := hf a u hu
  exact ⟨b, v, by rw [Program.run_bind_ok hrun, hrun'], hv.trans hu⟩

theorem quiet_call (key user hostname command : String) (w : KeyWorld F) :
    Quiet cluster (Keys.subprocessRun (keySshCmd key user hostname command)) w :=
  ⟨_, _, KeyEnv.run_subprocessRun cluster (quietEnv F) key user hostname command w, rfl⟩

theorem quiet_keygen (keyFile : Path) (comment : String) (w : KeyWorld F) :
    Quiet cluster (Keys.subprocessRun (keygenCmd keyFile comment)) w := by
  have hhandler : (quietEnv F).handler cluster (.run (keygenCmd keyFile comment)) w =
      (.ok ⟨1, "", ""⟩, ⟨w.files, w.authorized, .run (keygenCmd keyFile comment) :: w.log⟩) := by
    simp only [KeyEnv.handler, KeyEnv.act, keygenFile?_keygenCmd]
    rfl
  have hstep : (Keys.subprocessRun (keygenCmd keyFile comment)).run ((quietEnv F).handler cluster)
      w = (Keys.raiseOS ((quietEnv F).handler cluster (.run (keygenCmd keyFile comment)) w).1).run
        ((quietEnv F).handler cluster)
        ((quietEnv F).handler cluster (.run (keygenCmd keyFile comment)) w).2 := rfl
  rw [hhandler] at hstep
  exact ⟨_, _, hstep, rfl⟩

theorem quiet_generateKeypair (keyFile : Path) (comment : String) (w : KeyWorld F) :
    Quiet cluster (generateKeypair keyFile comment) w := by
  refine Quiet.bind ⟨_, _, KeyEnv.run_pathExists keyFile w, rfl⟩ fun there u _ => ?_
  split
  · exact .ret true u
  · refine (quiet_keygen keyFile comment u).bind fun result v _ => ?_
    split
    · exact .ret false v
    · exact Quiet.bind ⟨(), _, rfl, rfl⟩ fun _ x _ => .ret true x

theorem quiet_installKey (cluster : Cluster F) (key hostname bootstrapKey path user : String)
    (w : KeyWorld F) :
    Quiet cluster (installKey key hostname bootstrapKey path user) w := by
  refine (quiet_call _ _ _ _ w).bind fun checkResult u _ => ?_
  split
  · exact .ret true u
  · refine (quiet_call _ _ _ _ u).bind fun result v _ => ?_
    split
    · exact .ret false v
    · exact .ret true v

theorem quiet_testKey (keyFile : Path) (hostname user : String) (w : KeyWorld F) :
    Quiet cluster (testKey keyFile hostname user) w := by
  refine (quiet_call _ _ _ _ w).bind fun result u _ => ?_
  split
  · exact .ret true u
  · exact .ret false u

theorem quiet_deployPublicKey (keyFile : Path) (hostname bootstrapKey path user : String)
    (w : KeyWorld F)
    (hread : w.files.has ((publicKeyFile rule keyFile).locate cluster.cwd) →
      ∃ text, w.files.content? ((publicKeyFile rule keyFile).locate cluster.cwd) = some text) :
    Quiet cluster (deployPublicKey rule keyFile hostname bootstrapKey path user) w := by
  by_cases hthere : w.files.has ((publicKeyFile rule keyFile).locate cluster.cwd)
  · obtain ⟨text, hcontent⟩ := hread hthere
    obtain ⟨ok, w', hrun, hfiles⟩ := quiet_installKey cluster (strip text) hostname
      bootstrapKey path user ⟨w.files, w.authorized, .readText (publicKeyFile rule keyFile) ::
        .pathExists (publicKeyFile rule keyFile) :: w.log⟩
    exact ⟨ok, w', by rw [KeyEnv.run_deployPublicKey_of_content rfl hcontent, hrun], hfiles⟩
  · unfold deployPublicKey
    have hmissing : w.files.has ((publicKeyFile rule keyFile).locate cluster.cwd) = false := by
      simpa using hthere
    refine ⟨false, ⟨w.files, w.authorized, .pathExists (publicKeyFile rule keyFile) :: w.log⟩, ?_,
      rfl⟩
    rw [Program.bind_eq, Program.run_bind_ok (KeyEnv.run_pathExists _ w), hmissing]
    rfl

/-- Where everything that is there can be read, a turn ends normally. -/
theorem quiet_setupServer (w : KeyWorld F)
    (hread : w.files.has (deployedLocation cluster.cwd rule settings server) →
      ∃ text, w.files.content? (deployedLocation cluster.cwd rule settings server) = some text) :
    Quiet cluster (setupServer rule settings server) w := by
  rw [setupServer_eq]
  split
  · exact .ret true w
  · refine (quiet_generateKeypair _ _ w).bind fun generated u hu => ?_
    cases generated with
    | false => exact .ret false u
    | true =>
      refine (quiet_deployPublicKey _ _ _ _ _ u ?_).bind fun deployed v _ => ?_
      · rw [hu]
        exact hread
      · cases deployed with
        | false => exact .ret false v
        | true => exact quiet_testKey _ _ _ v

end Quiet

/-! ## All turns -/

section All

variable {F : Type} {rule : Path.Pathlib} {settings : KeySettings}
  {h : Handler KeySys (KeyWorld F)} {servers : List ServerConfig} {w : KeyWorld F}

theorem mem_turns {turn : Turn F} (hturn : turn ∈ turns rule settings h servers w) :
    turn.server ∈ servers ∧
      turn.after = ((setupServer rule settings turn.server).run h turn.before).2 := by
  induction servers generalizing w with
  | nil => cases hturn
  | cons server servers ih =>
    rcases List.mem_cons.mp hturn with rfl | hturn
    · exact ⟨by simp, rfl⟩
    · split at hturn
      · obtain ⟨hserver, hafter⟩ := ih hturn
        exact ⟨by simp [hserver], hafter⟩
      · cases hturn

theorem before_head_turns {turn : Turn F} (h : turn ∈ (turns rule settings h servers w).head?) :
    turn.before = w := by
  cases servers with
  | nil => cases h
  | cons server servers =>
    cases h
    rfl

/-- The loop takes its turns in the order of the servers, each from where the one before it ended,
and ends where the last one does. -/
theorem run_setupEach (results : KeyResults) :
    (turns rule settings h servers w).map Turn.server <+: servers ∧
      (turns rule settings h servers w).IsChain (fun turn next => next.before = turn.after) ∧
      ((setupEach rule settings servers results).run h w).2 =
        (turns rule settings h servers w).getLast?.elim w Turn.after := by
  induction servers generalizing w results with
  | nil => exact ⟨List.prefix_rfl, .nil, rfl⟩
  | cons server servers ih =>
    rw [turns, setupEach, Program.bind_eq, Program.run_bind]
    cases hrun : (setupServer rule settings server).run h w with
    | mk r u =>
      cases r with
      | error e => exact ⟨by simp, .singleton _, rfl⟩
      | ok a =>
        obtain ⟨horder, hchain, hend⟩ := @ih u (results.insert server.name a)
        refine ⟨List.cons_prefix_cons.mpr ⟨rfl, horder⟩, List.isChain_cons.mpr
          ⟨fun next hnext => before_head_turns hnext, hchain⟩, ?_⟩
        rw [List.getLast?_cons]
        exact hend.trans (by cases (turns rule settings h servers u).getLast? <;> rfl)

/-- So does `setupKeys`, once the directory is there. -/
theorem run_setupKeys {u : KeyWorld F}
    (hdir : (Keys.mkdir settings.keyDir).run h w = (.ok (), u)) :
    ((setupKeys rule settings servers).run h w).2 =
      (turns rule settings h servers u).getLast?.elim u Turn.after := by
  rw [setupKeys, Program.bind_eq, Program.run_bind_ok hdir]
  exact (run_setupEach ∅).2.2

/-- Where turns end normally and leave the files, every server has its turn. -/
theorem exists_turn_of_quiet {t : KeyFiles} (hw : w.files = t)
    (hquiet : ∀ s ∈ servers, ∀ u : KeyWorld F, u.files = t →
      ∃ a u', (setupServer rule settings s).run h u = (.ok a, u') ∧ u'.files = u.files)
    {server : ServerConfig} (hserver : server ∈ servers) :
    ∃ turn ∈ turns rule settings h servers w, turn.server = server ∧ turn.before.files = t := by
  induction servers generalizing w with
  | nil => cases hserver
  | cons s servers ih =>
    rcases List.mem_cons.mp hserver with rfl | hserver
    · exact ⟨_, List.mem_cons_self .., rfl, hw⟩
    · obtain ⟨a, u, hrun, hu⟩ := hquiet s (by simp) w hw
      obtain ⟨turn, hturn, hfirst, hfiles⟩ := ih (hu.trans hw)
        (fun s' hs' => hquiet s' (by simp [hs'])) hserver
      exact ⟨turn, by simp [turns, hrun, hturn], hfirst, hfiles⟩

end All

/-- A server whose key file name has a suffix can be sent another text than its own public
key. -/
theorem noSuffix_of_deploysOwnKeys {F : Type} [DecidableEq F] {cluster : Cluster F}
    {rule : Path.Pathlib} {keyDir keyPrefix bootstrapKey authorizedKeysPath : String}
    {servers : List ServerConfig}
    (hown : DeploysOwnKeys cluster rule keyDir keyPrefix bootstrapKey authorizedKeysPath servers)
    (hnames : ∀ s ∈ servers, '/' ∉ s.name.toList) {s : ServerConfig} (hs : s ∈ servers)
    (hlocal : s.isLocal = false) :
    NoSuffix rule (keySettings keyDir keyPrefix bootstrapKey authorizedKeysPath) s := by
  let settings := keySettings keyDir keyPrefix bootstrapKey authorizedKeysPath
  let key := keyLocation cluster.cwd settings s
  let found := deployedLocation cluster.cwd rule settings s
  by_contra hsuffix
  have hne : generatedLocation cluster.cwd settings s ≠ found :=
    fun h => hsuffix ((deployedLocation_eq_iff (hnames s hs)).mp h.symm)
  -- only the private key and a foreign public key are there
  let t : KeyFiles := ((∅ : KeyFiles).set key (.file "x")).set found (.file "x")
  have hread : ∀ loc, loc ≠ [] → t.has loc → ∃ text, t.content? loc = some text := by
    intro loc hloc hthere
    refine ⟨"x", ?_⟩
    simp only [t, FileTree.content?_set, Entry.content?]
    rcases FileTree.has_set.mp hthere with hfound | hthere
    · rw [if_pos hfound]
    · rcases FileTree.has_set.mp hthere with hkey | hthere
      · rw [if_pos hkey]
        split <;> rfl
      · simp [FileTree.has, FileTree.get?, hloc] at hthere
  have hturns : ∃ turn ∈ turns rule settings ((quietEnv F).handler cluster) servers
      ⟨t, fun _ => none, []⟩, turn.server = s ∧ turn.before.files = t := by
    refine exists_turn_of_quiet rfl (fun s' hs' u hu => quiet_setupServer u fun hthere => ?_) hs
    rw [hu] at hthere ⊢
    exact hread _ (deployedLocation_ne_nil (hnames s' hs')) hthere
  obtain ⟨turn, hturn, hserver, hfiles⟩ := hturns
  have hsends := hown (quietEnv F) ⟨t, fun _ => none, []⟩ turn hturn
  obtain ⟨-, hafter⟩ := mem_turns hturn
  obtain ⟨server, before, after⟩ := turn
  dsimp only at hserver hfiles hafter
  subst hserver hafter
  have hthere : before.files.has (keyLocation cluster.cwd settings server) := by
    rw [hfiles]
    exact FileTree.has_set.mpr (.inr (FileTree.has_set.mpr (.inl rfl)))
  have hcontent : before.files.content? (deployedLocation cluster.cwd rule settings server) =
      some "x" := by
    rw [hfiles]
    simp [t, found, FileTree.content?_set]
  have hkept : ((setupServer rule settings server).run ((quietEnv F).handler cluster)
      before).2.files = t := by rw [KeyEnv.files_setupServer fun _ => hthere, hfiles]
  have hlogged : KeyEnv.Logged (.run (keySshCmd settings.bootstrapKey "root" server.hostname
      (checkCommand (strip "x") settings.authorizedKeysPath))) before
      ((setupServer rule settings server).run ((quietEnv F).handler cluster) before).2 :=
    setupServer_logs_check hlocal (fun _ => rfl) hthere hcontent
  obtain ⟨text, htext, -⟩ := hlogged.of_since hsends (strip "x") (.inl rfl)
  rw [hkept, backupPublicKey_locate cluster.cwd server keyDir keyPrefix bootstrapKey
    authorizedKeysPath] at htext
  have hnone : t.content? (generatedLocation cluster.cwd settings server) = none := by
    have hkey : key ≠ generatedLocation cluster.cwd settings server :=
      keyLocation_ne_generatedLocation (hnames server hs)
    simp only [t]
    rw [FileTree.content?_set, if_neg hne, FileTree.content?_set, if_neg hkey.symm]
    rfl
  rw [hnone] at htext
  cases htext

/-- Distinct servers have distinct public keys, and each server that is not local is sent its own
exactly if the name of its key file has no suffix. -/
theorem deploysOwnKeys_iff {F : Type} [DecidableEq F] (cluster : Cluster F) (rule : Path.Pathlib)
    (keyDir keyPrefix bootstrapKey authorizedKeysPath : String) {servers : List ServerConfig}
    (hnames : ∀ s ∈ servers, '/' ∉ s.name.toList) (hdistinct : (servers.map (·.name)).Nodup) :
    servers.Pairwise (fun s s' => (backupPublicKey s keyDir keyPrefix).locate cluster.cwd ≠
        (backupPublicKey s' keyDir keyPrefix).locate cluster.cwd) ∧
      (DeploysOwnKeys cluster rule keyDir keyPrefix bootstrapKey authorizedKeysPath servers ↔
        ∀ s ∈ servers, s.isLocal = false →
          NoSuffix rule (keySettings keyDir keyPrefix bootstrapKey authorizedKeysPath) s) := by
  refine ⟨?_, fun hown s hs hlocal => noSuffix_of_deploysOwnKeys hown hnames hs hlocal, ?_⟩
  · rw [List.nodup_iff_pairwise_ne, List.pairwise_map] at hdistinct
    refine hdistinct.imp_of_mem fun {s s'} hs hs' hne h => hne ?_
    rw [backupPublicKey_locate cluster.cwd s keyDir keyPrefix bootstrapKey authorizedKeysPath,
      backupPublicKey_locate cluster.cwd s' keyDir keyPrefix bootstrapKey authorizedKeysPath] at h
    exact name_eq_of_generatedLocation (hnames s hs) (hnames s' hs') h
  · intro hsuffix env w turn hturn
    obtain ⟨hserver, hafter⟩ := mem_turns hturn
    obtain ⟨server, before, after⟩ := turn
    dsimp only at hserver hafter
    subst hafter
    rw [backupPublicKey_locate cluster.cwd server keyDir keyPrefix bootstrapKey authorizedKeysPath]
    cases hlocal : server.isLocal with
    | true =>
      rw [setupServer_eq, if_pos hlocal]
      exact KeyEnv.Since.refl before
    | false =>
      rw [← (deployedLocation_eq_iff (hnames server hserver)).mpr (hsuffix server hserver hlocal)]
      exact setupServer_sends before

def plainServers : List ServerConfig :=
  [{ name := "px01", hostname := "px01.lan", zfsPool := "rpool" },
   { name := "px02", hostname := "px02.lan", zfsPool := "rpool" }]

/-- Every destination has its own files. -/
def sampleCluster : Cluster (String × String) := ⟨[], Prod.mk⟩

theorem deploysOwnKeys_sample :
    DeploysOwnKeys sampleCluster .upTo313 "/root/.ssh" "backup_pull" "/root/.ssh/backup_key"
      "/etc/pve/priv/authorized_keys" plainServers :=
  (deploysOwnKeys_iff sampleCluster .upTo313 "/root/.ssh" "backup_pull" "/root/.ssh/backup_key"
    "/etc/pve/priv/authorized_keys" (by decide) (by decide)).2.mpr (by decide +kernel)

/-- `px` and `px.a`: the deployment to the second finds the public key of the first. -/
def dottedServers : List ServerConfig :=
  [{ name := "px", hostname := "px.lan", zfsPool := "rpool" },
   { name := "px.a", hostname := "a.px.lan", zfsPool := "rpool" }]

/-- Both key pairs are there. -/
def dottedKeys : KeyFiles :=
  [("/root/.ssh/backup_pull_px", "PRIVATE px"), ("/root/.ssh/backup_pull_px.pub", "ssh-ed25519 px"),
    ("/root/.ssh/backup_pull_px.a", "PRIVATE px.a"),
    ("/root/.ssh/backup_pull_px.a.pub", "ssh-ed25519 px.a")].foldl
      (fun t entry => t.set (components entry.1) (.file entry.2)) ∅

theorem other_key_deployed :
    (∀ s ∈ dottedServers, '/' ∉ s.name.toList) ∧ (dottedServers.map (·.name)).Nodup ∧
      KeyOp.run (keySshCmd "/root/.ssh/backup_key" "root" "a.px.lan"
        (checkCommand "ssh-ed25519 px" "/etc/pve/priv/authorized_keys")) ∈
        ((setupKeys .upTo313 (keySettings "/root/.ssh" "backup_pull" "/root/.ssh/backup_key"
          "/etc/pve/priv/authorized_keys") dottedServers).run ((quietEnv _).handler sampleCluster)
            ⟨dottedKeys, fun _ => none, []⟩).2.log ∧
      ¬ DeploysOwnKeys sampleCluster .upTo313 "/root/.ssh" "backup_pull" "/root/.ssh/backup_key"
        "/etc/pve/priv/authorized_keys" dottedServers := by
  refine ⟨by decide, by decide, by decide +kernel, fun hown => ?_⟩
  have hsuffix := noSuffix_of_deploysOwnKeys hown (by decide)
    (List.getElem_mem (n := 1) (by decide)) (by decide)
  exact absurd hsuffix (by decide +kernel)

end SrvBackup.Specification
