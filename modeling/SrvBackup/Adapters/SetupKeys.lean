import SrvBackup.Adapters.KeySystem
import SrvBackup.Adapters.Orchestrator
import SrvBackup.Text.Lines

/-!
# Generating and deploying ssh keys

For each server that is not local: a key pair, unless its private key is there; the public key
in the `authorized_keys` file of the host, unless a line of it has it; a test of the key.
-/
namespace SrvBackup.Adapters

open SrvBackup.Domain SrvBackup.Effects SrvBackup.Storage SrvBackup.Text

def keyPath (keyDir : Path) (keyPrefix serverName : String) : Path :=
  keyDir / (keyPrefix ++ "_" ++ serverName)

def keygenCmd (keyFile : Path) (comment : String) : Invocation :=
  .argv ["ssh-keygen", "-t", "ed25519", "-N", "", "-f", keyFile.str, "-C", comment]

def generateKeypair (keyFile : Path) (comment : String) : KeyProg Bool := do
  let there ← Keys.pathExists keyFile
  if there then pure true
  else do
    let result ← Keys.subprocessRun (keygenCmd keyFile comment)
    if result.returncode ≠ 0 then pure false
    else do
      Keys.chmod keyFile 0o600
      pure true

def keySshCmd (key user hostname command : String) : Invocation :=
  .argv ["ssh", "-i", key, "-o", "StrictHostKeyChecking=accept-new", "-o", "BatchMode=yes",
    "-o", "ConnectTimeout=10", user ++ "@" ++ hostname, command]

def checkCommand (key authorizedKeysPath : String) : String :=
  "grep -qF '" ++ key ++ "' " ++ authorizedKeysPath ++
    " 2>/dev/null && echo FOUND || echo MISSING"

def appendCommand (key authorizedKeysPath : String) : String :=
  "echo '" ++ key ++ "' >> " ++ authorizedKeysPath

/-- The calls of `_deploy_public_key`: look for the key, then append it. -/
def installKey (key hostname bootstrapKey authorizedKeysPath user : String) : KeyProg Bool := do
  let checkResult ← Keys.subprocessRun
    (keySshCmd bootstrapKey user hostname (checkCommand key authorizedKeysPath))
  if checkResult.returncode = 0 ∧ "FOUND".toList <:+: checkResult.stdout.toList then pure true
  else do
    let result ← Keys.subprocessRun
      (keySshCmd bootstrapKey user hostname (appendCommand key authorizedKeysPath))
    if result.returncode ≠ 0 then pure false else pure true

/-- The file that `_deploy_public_key` reads. -/
def publicKeyFile (rule : Path.Pathlib) (keyFile : Path) : Path := keyFile.withSuffix rule ".pub"

def deployPublicKey (rule : Path.Pathlib) (keyFile : Path)
    (hostname bootstrapKey authorizedKeysPath : String) (user : String := "root") :
    KeyProg Bool := do
  let there ← Keys.pathExists (publicKeyFile rule keyFile)
  if !there then pure false
  else do
    let text ← Keys.readText (publicKeyFile rule keyFile)
    installKey (strip text) hostname bootstrapKey authorizedKeysPath user

def testKey (keyFile : Path) (hostname : String) (user : String := "root") : KeyProg Bool := do
  let result ← Keys.subprocessRun (keySshCmd keyFile.str user hostname "hostname")
  if result.returncode = 0 then pure true else pure false

structure KeySettings where
  keyDir : Path
  keyPrefix : String
  bootstrapKey : String
  authorizedKeysPath : String := "/etc/pve/priv/authorized_keys"

def KeySettings.keyFile (settings : KeySettings) (server : ServerConfig) : Path :=
  keyPath settings.keyDir settings.keyPrefix server.name

/-- One turn of the loop. -/
def setupServer (rule : Path.Pathlib) (settings : KeySettings) (server : ServerConfig) :
    KeyProg Bool :=
  if server.isLocal then pure true
  else do
    let generated ← generateKeypair (settings.keyFile server)
      ("proxmox-pbs-backup-pull-" ++ server.name)
    if !generated then pure false
    else do
      let deployed ← deployPublicKey rule (settings.keyFile server) server.hostname
        settings.bootstrapKey settings.authorizedKeysPath
      if !deployed then pure false
      else testKey (settings.keyFile server) server.hostname

/-- A dictionary from server names to success. -/
abbrev KeyResults := AList fun _ : String => Bool

def setupEach (rule : Path.Pathlib) (settings : KeySettings) :
    List ServerConfig → KeyResults → KeyProg KeyResults
  | [], results => pure results
  | server :: servers, results => do
    let ok ← setupServer rule settings server
    setupEach rule settings servers (results.insert server.name ok)

def setupKeys (rule : Path.Pathlib) (settings : KeySettings) (servers : List ServerConfig) :
    KeyProg KeyResults := do
  Keys.mkdir settings.keyDir
  setupEach rule settings servers ∅

/-! ## Footprints -/

/-- The deployment to a server, and the test after it. -/
def deployAndTest (rule : Path.Pathlib) (settings : KeySettings) (server : ServerConfig) :
    KeyProg Bool := do
  let deployed ← deployPublicKey rule (settings.keyFile server) server.hostname
    settings.bootstrapKey settings.authorizedKeysPath
  if !deployed then pure false
  else testKey (settings.keyFile server) server.hostname

theorem setupServer_eq (rule : Path.Pathlib) (settings : KeySettings) (server : ServerConfig) :
    setupServer rule settings server =
      if server.isLocal then .ret true
      else (generateKeypair (settings.keyFile server)
        ("proxmox-pbs-backup-pull-" ++ server.name)).bind fun generated =>
          if generated then deployAndTest rule settings server else .ret false := by
  unfold setupServer deployAndTest
  split
  · rfl
  · refine congrArg (Program.bind _) (funext fun generated => ?_)
    cases generated <;> rfl

section Footprint

variable {P : KeyOp → Prop} {rule : Path.Pathlib} {keyFile : Path}
  {comment hostname bootstrapKey authorizedKeysPath user : String}

theorem Keys.performs_raiseOS {α : Type} (x : Except OSError α) :
    (Keys.raiseOS x).Performs (E := KeySys) P := by
  cases x <;> trivial

theorem generateKeypair_performs (hexists : P (.pathExists keyFile))
    (hrun : P (.run (keygenCmd keyFile comment))) (hchmod : P (.chmod keyFile 0o600)) :
    (generateKeypair keyFile comment).Performs (E := KeySys) P := by
  refine ⟨hexists, fun there => ?_⟩
  cases there with
  | true => trivial
  | false =>
    refine ⟨hrun, fun x => (Keys.performs_raiseOS x).bind fun result => ?_⟩
    split
    · trivial
    · exact ⟨hchmod, fun x => (Keys.performs_raiseOS x).bind fun _ => trivial⟩

theorem installKey_performs {key : String}
    (hcheck : P (.run (keySshCmd bootstrapKey user hostname (checkCommand key authorizedKeysPath))))
    (happend : P (.run (keySshCmd bootstrapKey user hostname
      (appendCommand key authorizedKeysPath)))) :
    (installKey key hostname bootstrapKey authorizedKeysPath user).Performs (E := KeySys) P := by
  refine ⟨hcheck, fun x => (Keys.performs_raiseOS x).bind fun checkResult => ?_⟩
  split
  · trivial
  · refine ⟨happend, fun x => (Keys.performs_raiseOS x).bind fun result => ?_⟩
    split <;> trivial

theorem deployPublicKey_performs (hexists : P (.pathExists (publicKeyFile rule keyFile)))
    (hread : P (.readText (publicKeyFile rule keyFile)))
    (hrun : ∀ command, P (.run (keySshCmd bootstrapKey user hostname command))) :
    (deployPublicKey rule keyFile hostname bootstrapKey authorizedKeysPath user).Performs
      (E := KeySys) P := by
  refine ⟨hexists, fun there => ?_⟩
  cases there with
  | false => trivial
  | true =>
    exact ⟨hread, fun x => (Keys.performs_raiseOS x).bind fun text =>
      installKey_performs (hrun _) (hrun _)⟩

theorem testKey_performs (hrun : P (.run (keySshCmd keyFile.str user hostname "hostname"))) :
    (testKey keyFile hostname user).Performs (E := KeySys) P := by
  refine ⟨hrun, fun x => (Keys.performs_raiseOS x).bind fun result => ?_⟩
  split <;> trivial

theorem deployAndTest_performs {settings : KeySettings} {server : ServerConfig}
    (hexists : P (.pathExists (publicKeyFile rule (settings.keyFile server))))
    (hread : P (.readText (publicKeyFile rule (settings.keyFile server))))
    (hrun : ∀ key command, P (.run (keySshCmd key "root" server.hostname command))) :
    (deployAndTest rule settings server).Performs (E := KeySys) P := by
  refine (deployPublicKey_performs hexists hread (hrun _)).bind fun deployed => ?_
  cases deployed with
  | false => trivial
  | true => exact testKey_performs (hrun _ _)

theorem setupServer_performs {settings : KeySettings} {server : ServerConfig}
    (hlocal : server.isLocal = false → ∀ comment,
      P (.run (keygenCmd (settings.keyFile server) comment)))
    (hexists : ∀ path, P (.pathExists path)) (hread : ∀ path, P (.readText path))
    (hchmod : ∀ path mode, P (.chmod path mode))
    (hrun : ∀ key command, P (.run (keySshCmd key "root" server.hostname command))) :
    (setupServer rule settings server).Performs (E := KeySys) P := by
  rw [setupServer_eq]
  split
  · trivial
  · next hremote =>
    refine (generateKeypair_performs (hexists _) (hlocal (by simpa using hremote) _)
      (hchmod _ _)).bind fun generated => ?_
    cases generated with
    | false => trivial
    | true => exact deployAndTest_performs (hexists _) (hread _) hrun

theorem setupEach_performs {settings : KeySettings} {servers : List ServerConfig}
    (h : ∀ server ∈ servers, (setupServer rule settings server).Performs (E := KeySys) P)
    (results : KeyResults) :
    (setupEach rule settings servers results).Performs (E := KeySys) P := by
  induction servers generalizing results with
  | nil => trivial
  | cons server servers ih =>
    exact (h server (by simp)).bind fun ok => ih (fun s hs => h s (by simp [hs])) _

end Footprint

/-! ## Commands and their texts -/

@[simp] theorem text_keySshCmd (key user hostname command : String) :
    (keySshCmd key user hostname command).text = command := rfl

@[simp] theorem destination_keySshCmd (key user hostname command : String) :
    (keySshCmd key user hostname command).destination? = some (user ++ "@" ++ hostname) := rfl

@[simp] theorem keygenFile?_keySshCmd (key user hostname command : String) :
    keygenFile? (keySshCmd key user hostname command) = none := rfl

@[simp] theorem keygenFile?_keygenCmd (keyFile : Path) (comment : String) :
    keygenFile? (keygenCmd keyFile comment) = some keyFile.str := by
  simp [keygenFile?, keygenCmd]

/-- What a shell makes of a quoted text without quotes in it. -/
theorem quoted_append {key : String} (hkey : '\'' ∉ key.toList) (rest : List Char) :
    quoted (key.toList ++ '\'' :: rest) = (key, rest) := by
  have hall : ∀ c ∈ key.toList, decide (c ≠ '\'') = true := by
    intro c hc
    simpa using fun h : c = '\'' => hkey (h ▸ hc)
  rw [quoted, List.takeWhile_append_of_pos hall, List.dropWhile_append_of_pos hall]
  simp

end SrvBackup.Adapters
