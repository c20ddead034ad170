import SrvBackup.Specification.Keys

/-!
# Setting up keys again

After a run of `setupKeys` that succeeds for every server, another one finds every key pair and
every key, and changes nothing: unless a later turn of the first run has replaced a public key
file that an earlier turn had deployed. That happens where `publicKeyFile` is the public half of
another server's key.
-/
namespace SrvBackup.Specification

open SrvBackup.Domain SrvBackup.Effects SrvBackup.Storage SrvBackup.Text SrvBackup.Adapters

variable {F : Type} (cluster : Cluster F) (rule : Path.Pathlib) (settings : KeySettings)

/-- The `authorized_keys` file of a server. -/
def authorizedFile (server : ServerConfig) : F :=
  cluster.store ("root@" ++ server.hostname) settings.authorizedKeysPath

/-- The deployments read no private key of a server, and for each of them there is one, of the
same public key file to the same `authorized_keys` file, after which no key pair is generated
whose public key goes to that file. -/
structure DeploymentsLast (servers : List ServerConfig) (files : KeyFiles) : Prop where
  notPrivate : ∀ s ∈ servers, ∀ r ∈ servers, s.isLocal = false → r.isLocal = false →
    keyLocation cluster.cwd settings r ≠ deployedLocation cluster.cwd rule settings s
  last : ∀ s ∈ servers, s.isLocal = false → ∃ t post, t :: post <:+ servers ∧
    t.isLocal = false ∧
    deployedLocation cluster.cwd rule settings t = deployedLocation cluster.cwd rule settings s ∧
    authorizedFile cluster settings t = authorizedFile cluster settings s ∧
    ∀ r ∈ post, r.isLocal = false →
      generatedLocation cluster.cwd settings r ≠ deployedLocation cluster.cwd rule settings s ∨
        files.has (keyLocation cluster.cwd settings r)

/-- The public keys that are there, and those that `ssh-keygen` makes, are single lines without
a quote. -/
structure PublicKeyLines (servers : List ServerConfig) (env : KeyEnv F) (files : KeyFiles) :
    Prop where
  there : ∀ s ∈ servers, s.isLocal = false → ∀ text,
    files.content? (deployedLocation cluster.cwd rule settings s) = some text → KeyLine (strip text)
  generated : ∀ n privateKey publicKey, env.keygen n = .generated privateKey publicKey →
    KeyLine (strip publicKey)

/-- What the deployment to a server leaves for the next run. -/
structure Deployed (server : ServerConfig) (w : KeyWorld F) : Prop where
  has : w.files.has (keyLocation cluster.cwd settings server)
  held : ∀ text, w.files.content? (deployedLocation cluster.cwd rule settings server) = some text →
    KeyLine (strip text) ∧
      HoldsKey w.authorized (authorizedFile cluster settings server) (strip text)

/-! ## The first run -/

section FirstRun

variable {cluster rule settings} [DecidableEq F] {env : KeyEnv F} {servers : List ServerConfig}
  {w w' : KeyWorld F} {results results' : KeyResults}

/-- The run generates key pairs of the servers only. -/
def GeneratesFor (settings : KeySettings) (servers : List ServerConfig) (o : KeyOp) : Prop :=
  ∀ cmd file, o = .run cmd → keygenFile? cmd = some file →
    ∃ r ∈ servers, r.isLocal = false ∧ file = (settings.keyFile r).str

theorem setupEach_generatesFor (rule : Path.Pathlib) (settings : KeySettings)
    (servers : List ServerConfig) (results : KeyResults) :
    (setupEach rule settings servers results).Performs (E := KeySys)
      (GeneratesFor settings servers) := by
  refine setupEach_performs (fun server hserver => ?_) results
  refine setupServer_performs ?_ ?_ ?_ ?_ ?_
  · rintro hlocal comment cmd file h hfile
    cases h
    rw [keygenFile?_keygenCmd] at hfile
    exact ⟨server, hserver, hlocal, (Option.some.inj hfile).symm⟩
  · exact fun _ _ _ h => by cases h
  · exact fun _ _ _ h => by cases h
  · exact fun _ _ _ _ h => by cases h
  · rintro key command cmd file h hfile
    cases h
    cases hfile

/-- The texts that deployments find stay single lines. -/
theorem keyLine_of_run {α : Type} {p : KeyProg α}
    (hp : p.Performs (E := KeySys) (GeneratesFor settings servers)) {files : KeyFiles}
    (hlast : DeploymentsLast cluster rule settings servers files)
    (hgenerated : ∀ n privateKey publicKey, env.keygen n = .generated privateKey publicKey →
      KeyLine (strip publicKey)) {s : ServerConfig} (hs : s ∈ servers)
    (hlocal : s.isLocal = false)
    (h : ∀ text, w.files.content? (deployedLocation cluster.cwd rule settings s) = some text →
      KeyLine (strip text)) :
    ∀ text, (p.run (env.handler cluster) w).2.files.content?
      (deployedLocation cluster.cwd rule settings s) = some text → KeyLine (strip text) := by
  refine hp.run_preserves (I := fun u : KeyWorld F => ∀ text, u.files.content?
    (deployedLocation cluster.cwd rule settings s) = some text → KeyLine (strip text)) ?_ h
  intro o u ho hu
  refine KeyEnv.handler_preserves (I := fun t => ∀ text, t.content?
    (deployedLocation cluster.cwd rule settings s) = some text → KeyLine (strip text)) ?_ ?_ hu
  · intro path t t' _ ht hold text htext
    rw [FileTree.content?_mkdirs ht] at htext
    exact hold text htext
  · rintro cmd file hcmd hfile n privateKey publicKey hend t t' ht hold text htext
    obtain ⟨r, hr, hremote, rfl⟩ := ho cmd file hcmd hfile
    rw [Path.ofString_str] at ht
    rcases ht with ht | ht <;> rw [(FileTree.create_eq_some ht).2, FileTree.content?_set] at htext
    · split at htext
      · next heq => exact absurd heq.symm (hlast.notPrivate s hs r hr hlocal hremote)
      · exact hold text htext
    · split at htext
      · cases htext
        exact hgenerated n _ _ hend
      · exact hold text htext

theorem lookup_setupEach
    (h : (setupEach rule settings servers results).run (env.handler cluster) w =
      (.ok results', w')) {name : String} (hname : name ∉ servers.map (·.name)) :
    results'.lookup name = results.lookup name := by
  induction servers generalizing results w with
  | nil => cases h; rfl
  | cons server servers ih =>
    obtain ⟨ok, u, -, hrest⟩ := Program.run_bind_eq_ok h
    rw [List.map_cons, List.mem_cons, not_or] at hname
    rw [ih hrest hname.2, AList.lookup_insert_ne hname.1]

/-- The turn of a server, when every turn succeeds, and what follows it. -/
theorem exists_turn
    (h : (setupEach rule settings servers results).run (env.handler cluster) w =
      (.ok results', w')) (hdistinct : (servers.map (·.name)).Nodup)
    (hsuccess : ∀ s ∈ servers, results'.lookup s.name = some true) {t : ServerConfig}
    {post : List ServerConfig} (ht : t :: post <:+ servers) :
    ∃ u v between, KeyEnv.Grows w u ∧
      (setupServer rule settings t).run (env.handler cluster) u = (.ok true, v) ∧
      (setupEach rule settings post between).run (env.handler cluster) v = (.ok results', w') := by
  induction servers generalizing results w with
  | nil => simp at ht
  | cons server servers ih =>
    obtain ⟨ok, u, hturn, hrest⟩ := Program.run_bind_eq_ok h
    obtain ⟨hname, hdistinct⟩ := List.nodup_cons.mp hdistinct
    rcases List.suffix_cons_iff.mp ht with heq | ht
    · cases heq
      have hok := hsuccess t (by simp)
      rw [lookup_setupEach hrest hname, AList.lookup_insert] at hok
      cases hok
      exact ⟨w, u, _, .refl w, hturn, hrest⟩
    · obtain ⟨u', v, between, hgrows, hrun⟩ := ih hrest hdistinct
        (fun s hs => hsuccess s (by simp [hs])) ht
      exact ⟨u', v, between, (KeyEnv.grows_of_run hturn).trans hgrows, hrun⟩

/-- Later turns leave a text that is not where they generate a key pair. -/
theorem content?_setupEach {loc : List Component} {text : String}
    (hpub : ∀ r ∈ servers, r.isLocal = false → generatedLocation cluster.cwd settings r ≠ loc ∨
      w.files.has (keyLocation cluster.cwd settings r))
    (hcontent : w.files.content? loc = some text) :
    ((setupEach rule settings servers results).run (env.handler cluster) w).2.files.content? loc =
      some text := by
  induction servers generalizing results w with
  | nil => exact hcontent
  | cons server servers ih =>
    obtain ⟨r, u, hturn⟩ : ∃ r u, (setupServer rule settings server).run (env.handler cluster) w =
        (r, u) := ⟨_, _, rfl⟩
    have hgrows := KeyEnv.grows_of_run hturn
    have hkept : ((setupServer rule settings server).run (env.handler cluster) w).2.files.content?
        loc = some text := KeyEnv.content?_setupServer (hpub server (by simp)) hcontent
    rw [hturn] at hkept
    unfold setupEach
    rw [Program.bind_eq]
    cases r with
    | error e => rwa [Program.run_bind_error hturn]
    | ok ok =>
      rw [Program.run_bind_ok hturn]
      exact ih (fun r hr hlocal => (hpub r (by simp [hr]) hlocal).imp_right (hgrows.has _)) hkept

/-- What a successful first run leaves. -/
theorem deployed_of_setupEach {files : KeyFiles}
    (h : (setupEach rule settings servers results).run (env.handler cluster) w =
      (.ok results', w')) (hdistinct : (servers.map (·.name)).Nodup)
    (hsuccess : ∀ s ∈ servers, results'.lookup s.name = some true)
    (hfiles : ∀ loc, files.has loc → w.files.has loc)
    (hlast : DeploymentsLast cluster rule settings servers files)
    (hlines : ∀ s ∈ servers, s.isLocal = false → ∀ text,
      w'.files.content? (deployedLocation cluster.cwd rule settings s) = some text →
        KeyLine (strip text)) {s : ServerConfig} (hs : s ∈ servers) (hlocal : s.isLocal = false) :
    Deployed cluster rule settings s w' := by
  constructor
  · obtain ⟨pre, post, hsplit⟩ := List.append_of_mem hs
    obtain ⟨u, v, between, -, hturn, hrest⟩ := exists_turn h hdistinct hsuccess ⟨pre, hsplit.symm⟩
    exact (KeyEnv.grows_of_run hrest).has _ (KeyEnv.deployed_of_setupServer hlocal hturn).1
  · intro text htext
    have hkey := hlines s hs hlocal text htext
    refine ⟨hkey, ?_⟩
    obtain ⟨t, post, hsuffix, htlocal, hloc, hfile, hafter⟩ := hlast.last s hs hlocal
    obtain ⟨u, v, between, hgrows, hturn, hrest⟩ := exists_turn h hdistinct hsuccess hsuffix
    obtain ⟨-, text', hcontent, hheld⟩ := KeyEnv.deployed_of_setupServer htlocal hturn
    have hsince := hgrows.trans (KeyEnv.grows_of_run hturn)
    have hread : v.files.content? (deployedLocation cluster.cwd rule settings s) = some text' := by
      rw [← hloc]
      exact hcontent
    have hkept :
        ((setupEach rule settings post between).run (env.handler cluster) v).2.files.content?
          (deployedLocation cluster.cwd rule settings s) = some text' :=
      content?_setupEach (fun r hr hremote => (hafter r hr hremote).imp_right fun hthere =>
        hsince.has _ (hfiles _ hthere)) hread
    rw [hrest, htext] at hkept
    cases hkept
    rw [← hfile]
    exact (KeyEnv.grows_of_run hrest).holdsKey _ _ hkey.1 (hheld hkey)

end FirstRun

/-! ## The runs after it -/

section Again

variable {cluster rule settings} [DecidableEq F] {env : KeyEnv F} {servers : List ServerConfig}
  {w : KeyWorld F}

theorem setupEach_of_deployed (hcall : ∀ n, env.call n = .answered) (results : KeyResults)
    (h : ∀ s ∈ servers, s.isLocal = false → Deployed cluster rule settings s w) :
    ((setupEach rule settings servers results).run (env.handler cluster) w).2.files = w.files ∧
      ((setupEach rule settings servers results).run (env.handler cluster) w).2.authorized =
        w.authorized := by
  induction servers generalizing results w with
  | nil => exact ⟨rfl, rfl⟩
  | cons server servers ih =>
    have hserver := h server (by simp)
    have hfiles : ((setupServer rule settings server).run (env.handler cluster) w).2.files =
        w.files := KeyEnv.files_setupServer fun hlocal => (hserver hlocal).has
    have hauthorized :
        ((setupServer rule settings server).run (env.handler cluster) w).2.authorized =
          w.authorized := KeyEnv.authorized_setupServer hcall (fun hlocal => (hserver hlocal).has)
          fun hlocal => (hserver hlocal).held
    obtain ⟨r, u, hturn⟩ : ∃ r u, (setupServer rule settings server).run (env.handler cluster) w =
        (r, u) := ⟨_, _, rfl⟩
    rw [hturn] at hfiles hauthorized
    unfold setupEach
    rw [Program.bind_eq]
    cases r with
    | error e => rw [Program.run_bind_error hturn]; exact ⟨hfiles, hauthorized⟩
    | ok ok =>
      rw [Program.run_bind_ok hturn, ← hfiles, ← hauthorized]
      refine ih _ fun s hs hlocal => ?_
      obtain ⟨hhas, hheld⟩ := h s (by simp [hs]) hlocal
      exact ⟨by rw [hfiles]; exact hhas, by rw [hfiles, hauthorized]; exact hheld⟩

theorem setupKeys_of_deployed (hcall : ∀ n, env.call n = .answered)
    (hdir : ∀ loc ∈ FileTree.lineage (settings.keyDir.locate cluster.cwd), w.files.isDir loc)
    (h : ∀ s ∈ servers, s.isLocal = false → Deployed cluster rule settings s w) :
    ((setupKeys rule settings servers).run (env.handler cluster) w).2.files = w.files ∧
      ((setupKeys rule settings servers).run (env.handler cluster) w).2.authorized =
        w.authorized := by
  unfold setupKeys
  rw [Program.bind_eq]
  rcases KeyEnv.run_mkdir cluster env settings.keyDir w with ⟨e, hmkdir⟩ | ⟨t, hmade, hmkdir⟩
  · rw [Program.run_bind_error hmkdir]
    exact ⟨rfl, rfl⟩
  · rw [FileTree.mkdirs_of_isDir hdir] at hmade
    cases hmade
    rw [Program.run_bind_ok hmkdir]
    exact setupEach_of_deployed hcall ∅ fun s hs hlocal =>
      ⟨(h s hs hlocal).has, (h s hs hlocal).held⟩

end Again

/-- The state after runs that meet the environments of the list in turn. -/
def rerunKeys [DecidableEq F] (servers : List ServerConfig) (envs : List (KeyEnv F))
    (w : KeyWorld F) : KeyWorld F :=
  envs.foldl (fun u env => ((setupKeys rule settings servers).run (env.handler cluster) u).2) w

theorem rerunKeys_of_deployed [DecidableEq F] {cluster : Cluster F} {rule : Path.Pathlib}
    {settings : KeySettings} {servers : List ServerConfig} {envs : List (KeyEnv F)}
    {w : KeyWorld F}
    (hdir : ∀ loc ∈ FileTree.lineage (settings.keyDir.locate cluster.cwd), w.files.isDir loc)
    (h : ∀ s ∈ servers, s.isLocal = false → Deployed cluster rule settings s w)
    (hreached : ∀ env ∈ envs, ∀ n, env.call n = .answered) :
    (rerunKeys cluster rule settings servers envs w).files = w.files ∧
      (rerunKeys cluster rule settings servers envs w).authorized = w.authorized := by
  induction envs generalizing w with
  | nil => exact ⟨rfl, rfl⟩
  | cons env envs ih =>
    obtain ⟨hfiles, hauthorized⟩ := setupKeys_of_deployed (hreached env (by simp)) hdir h
    rw [← hfiles, ← hauthorized]
    refine ih ?_ (fun s hs hlocal => ?_) fun env' henv => hreached env' (by simp [henv])
    · rw [hfiles]
      exact hdir
    · obtain ⟨hhas, hheld⟩ := h s hs hlocal
      exact ⟨by rw [hfiles]; exact hhas, by rw [hfiles, hauthorized]; exact hheld⟩

/-- If the run from `w` succeeds for every server, all further runs whose calls reach the hosts
change no local file and no `authorized_keys` file. -/
def RerunSafe [DecidableEq F] (servers : List ServerConfig) (env : KeyEnv F) (w : KeyWorld F) :
    Prop :=
  ∀ results w', (setupKeys rule settings servers).run (env.handler cluster) w = (.ok results, w') →
    (∀ s ∈ servers, results.lookup s.name = some true) → ∀ envs : List (KeyEnv F),
      (∀ env' ∈ envs, ∀ n, env'.call n = .answered) →
        (rerunKeys cluster rule settings servers envs w').files = w'.files ∧
          (rerunKeys cluster rule settings servers envs w').authorized = w'.authorized

/-- Setting up keys again is safe when every server keeps the public key deployed to it. -/
theorem rerunSafe_of_deploymentsLast [DecidableEq F] {cluster : Cluster F} {rule : Path.Pathlib}
    {settings : KeySettings} {servers : List ServerConfig} {env : KeyEnv F} {w : KeyWorld F}
    (hdistinct : (servers.map (·.name)).Nodup)
    (hlines : PublicKeyLines cluster rule settings servers env w.files)
    (hlast : DeploymentsLast cluster rule settings servers w.files) :
    RerunSafe cluster rule settings servers env w := by
  intro results w' hrun hsuccess envs hreached
  obtain ⟨_, u, hmkdir, hrest⟩ := Program.run_bind_eq_ok hrun
  obtain ⟨t, hmade, hfiles⟩ : ∃ t, w.files.mkdirs (settings.keyDir.locate cluster.cwd) = some t ∧
      u.files = t := by
    rcases KeyEnv.run_mkdir cluster env settings.keyDir w with ⟨e, hfailed⟩ | ⟨t, hmade, hdone⟩
    · rw [hfailed] at hmkdir
      cases hmkdir
    · rw [hdone] at hmkdir
      cases hmkdir
      exact ⟨t, hmade, rfl⟩
  have hdirs : ∀ loc ∈ FileTree.lineage (settings.keyDir.locate cluster.cwd),
      w'.files.isDir loc := by
    intro loc hloc
    refine (KeyEnv.grows_of_run hrest).isDir loc ?_
    rw [hfiles]
    exact FileTree.isDir_of_mem_lineage hmade hloc
  have hread : ∀ s ∈ servers, s.isLocal = false → ∀ text,
      w'.files.content? (deployedLocation cluster.cwd rule settings s) = some text →
        KeyLine (strip text) := by
    intro s hs hlocal
    have hkept := keyLine_of_run (w := u) (setupEach_generatesFor rule settings servers ∅) hlast
      hlines.generated hs hlocal
    rw [hrest] at hkept
    refine hkept fun text htext => hlines.there s hs hlocal text ?_
    rwa [hfiles, FileTree.content?_mkdirs hmade] at htext
  exact rerunKeys_of_deployed hdirs (fun s hs hlocal =>
    deployed_of_setupEach hrest hdistinct hsuccess (KeyEnv.grows_of_run hmkdir).has hlast hread
      hs hlocal) hreached

/-- So it is for servers whose key file names have no suffix. -/
theorem deploymentsLast_of_noSuffix {cluster : Cluster F} {rule : Path.Pathlib}
    {settings : KeySettings} {servers : List ServerConfig}
    (hnames : ∀ s ∈ servers, '/' ∉ s.name.toList) (hdistinct : (servers.map (·.name)).Nodup)
    (hsuffix : ∀ s ∈ servers, s.isLocal = false → NoSuffix rule settings s) (files : KeyFiles) :
    DeploymentsLast cluster rule settings servers files := by
  have hown : ∀ s ∈ servers, s.isLocal = false → deployedLocation cluster.cwd rule settings s =
      generatedLocation cluster.cwd settings s := fun s hs hlocal =>
    (deployedLocation_eq_iff (hnames s hs)).mpr (hsuffix s hs hlocal)
  constructor
  · intro s hs r hr hlocal hremote h
    rw [hown s hs hlocal] at h
    have hr' := hsuffix r hr hremote
    obtain ⟨dir, last, hlocations⟩ := exists_keyLocations cluster.cwd rule settings
    obtain ⟨x, y, -, ⟨-, hx⟩, ⟨hpub, hy⟩, -⟩ := hlocations s (hnames s hs)
    obtain ⟨x', -, -, ⟨hkey, -⟩, -, -, hname⟩ := hlocations r (hnames r hr)
    rw [hpub, hkey] at h
    have hxy : x' = y := by simpa using h
    rw [NoSuffix, hname, hxy, hy, show ".pub" = String.ofList ('.' :: "pub".toList) by rfl,
      rule.stem_append ⟨'_', by simp [hx], by decide⟩ (by decide) (by decide)] at hr'
    have hlen := congrArg (fun t : String => t.toList.length) hr'
    simp at hlen
  · intro s hs hlocal
    obtain ⟨pre, post, rfl⟩ := List.append_of_mem hs
    refine ⟨s, post, List.suffix_append _ _, hlocal, rfl, rfl, fun r hr _ => .inl fun h => ?_⟩
    rw [hown s hs hlocal] at h
    have hname := name_eq_of_generatedLocation (hnames r (by simp [hr])) (hnames s hs) h
    rw [List.map_append, List.map_cons] at hdistinct
    have hrest := (List.nodup_cons.mp (List.nodup_append.mp hdistinct).2.1).1
    exact hrest (List.mem_map.mpr ⟨r, hr, hname⟩)

def sampleKeySettings : KeySettings := keySettings "/k" "b" "/k/boot" "keys"

/-- Every key pair that is made has the same public key. -/
def sampleKeyEnv : KeyEnv (String × String) where
  keygen _ := .generated "PRIVATE" "NEW"
  call _ := .answered
  answer _ := ⟨0, "px\n", ""⟩
  refuses _ := false
  fault _ := none

theorem rerunSafe_sample :
    RerunSafe sampleCluster .upTo313 sampleKeySettings plainServers sampleKeyEnv
      ⟨∅, fun _ => none, []⟩ :=
  rerunSafe_of_deploymentsLast (by decide)
    ⟨fun _ _ _ _ h => (by cases h), fun _ _ _ h => (by cases h; decide)⟩
    (deploymentsLast_of_noSuffix (by decide) (by decide) (by decide +kernel) ∅)

/-- The private key of `px.a` and an old public key of `px` are there, the private key of `px` is
not. -/
def staleKeys : KeyFiles :=
  [("/k/b_px.a", "PRIVATE"), ("/k/b_px.pub", "OLD")].foldl
    (fun t entry => t.set (components entry.1) (.file entry.2)) ∅

/-- How a run is seen not to be safe: it succeeds, and the next one changes a file. -/
theorem not_rerunSafe [DecidableEq F] {cluster : Cluster F} {rule : Path.Pathlib}
    {settings : KeySettings} {servers : List ServerConfig} {env : KeyEnv F} {w : KeyWorld F}
    (hsuccess : (((setupKeys rule settings servers).run (env.handler cluster) w).1.toOption.map
      fun results => decide (∀ s ∈ servers, results.lookup s.name = some true)) = some true)
    (again : KeyEnv F) (hreached : ∀ n, again.call n = .answered) (f : F)
    (hchanged : (rerunKeys cluster rule settings servers [again]
        ((setupKeys rule settings servers).run (env.handler cluster) w).2).authorized f ≠
      ((setupKeys rule settings servers).run (env.handler cluster) w).2.authorized f) :
    ¬ RerunSafe cluster rule settings servers env w := by
  intro hsafe
  obtain ⟨results, hresults, hall⟩ := Option.map_eq_some_iff.mp hsuccess
  generalize hrun : (setupKeys rule settings servers).run (env.handler cluster) w = first at *
  obtain ⟨end', w'⟩ := first
  cases end' with
  | error e => cases hresults
  | ok r =>
    obtain rfl : r = results := Option.some.inj hresults
    have hsame := (hsafe r w' hrun (of_decide_eq_true hall) [again]
      (fun env' henv n => by rw [List.mem_singleton.mp henv, hreached])).2
    exact hchanged (congrFun hsame f)

/-- The first run sends the old key of `px` to `px.a` and then makes a new one, which the second
run sends. -/
theorem rerun_deploys_again :
    (dottedServers.reverse.map (·.name)).Nodup ∧
      PublicKeyLines sampleCluster .upTo313 sampleKeySettings dottedServers.reverse sampleKeyEnv
        staleKeys ∧
      ¬ RerunSafe sampleCluster .upTo313 sampleKeySettings dottedServers.reverse sampleKeyEnv
        ⟨staleKeys, fun _ => none, []⟩ := by
  refine ⟨by decide, ⟨?_, fun _ _ _ h => (by cases h; decide)⟩,
    not_rerunSafe ?_ sampleKeyEnv (fun _ => rfl)
      ("root@a.px.lan", "keys") ?_⟩
  · have hall : ∀ s ∈ dottedServers.reverse, (staleKeys.content? (deployedLocation
        sampleCluster.cwd .upTo313 sampleKeySettings s)).all
          (fun text => decide (KeyLine (strip text))) := by decide +kernel
    intro s hs _ text htext
    have hs' := hall s hs
    rw [htext, Option.all_some] at hs'
    exact of_decide_eq_true hs'
  · decide +kernel
  · decide +kernel

end SrvBackup.Specification
