import SrvBackup.Specification.Series

/-!
# Pools that are cut off

In every state that a pool goes through, whatever fails in it, each series of each server has
lasted (`pool_cut_off`).
-/
namespace SrvBackup.Specification

open SrvBackup.Domain SrvBackup.Effects SrvBackup.Storage SrvBackup.Text SrvBackup.Adapters

/-- What survives of a series when a run that makes its file at `time` is cut off. -/
def Series.Lasts (env : Env) (server : ServerConfig) (settings : BackupSettings) (series : Series)
    (time : DateTime) (t u : Files) : Prop :=
  Survives (series.Made env server settings time)
    ((series.dir server settings.backupBaseDir).locate env.cwd) series.pattern
    (series.keep settings) (series.own env.cwd server settings.backupBaseDir time) t u

/-- Writing and pruning let a series last. -/
def lasting (env : Env) (server : ServerConfig) (settings : BackupSettings) :
    Upkeep env server settings where
  Rel series time := series.Lasts env server settings time
  of_same h := .of_same (h.mono fun _ => .inl)
  after h hlasts := hlasts.after (h.mono fun _ => .inl)
  before hlasts h := hlasts.before (h.mono fun _ => .inl)
  produces := by
    rintro series time _ ⟨write, rfl, hwrite, hmade⟩ w
    exact write_prune_survives hwrite (hmade w)

variable {servers : List ServerConfig} {settings : BackupSettings} {types : BackupType}
  {dryRun : Bool} {cwd : List Component} {env : Fin servers.length → Env} {files : Files}

/-- Wherever a pool is cut off, whatever has failed in it and whatever its schedule is, every series
of every server has lasted. -/
theorem pool_cut_off (hservers : ServersApart servers) (hcwd : ∀ i, (env i).cwd = cwd)
    {width : Nat} {c : Pool Sys Error BackupResult (Machine servers.length) servers.length}
    (hc : PoolReaches servers settings types dryRun env files width c) (i : Fin servers.length)
    (series : Series) :
    ∃ n, series.Lasts (env i) (servers.get i) settings ((env i).clock n) files c.shared.files :=
  pool_upkeep hservers hcwd hc i (lasting (env i) (servers.get i) settings) series

/-- After a run that keeps one only the server `px01` still has an archive. -/
theorem pool_cut_off_sample :
    ∃ c, PoolReaches apartServers sampleSettings .all false sampleEnvs sampleFiles 2 c ∧
      (archives c.shared.files ((snapshotsDir sampleServer sampleBase).locate [])
        snapshotPattern).Nonempty := by
  obtain ⟨c, hc, -⟩ := Pool.exists_complete (h := poolHandler sampleEnvs) (show 0 < 2 by decide)
    (c := Pool.initial (backupPool backupSteps apartServers (.ok sampleSettings) .all false)
      ⟨sampleFiles, fun _ => []⟩) (Nat.zero_le _)
  obtain ⟨n, hlasts⟩ := pool_cut_off serversApart_sample (fun _ => rfl) hc ⟨0, by decide⟩ .snapshots
  obtain ⟨S, hS, hcard, -⟩ := hlasts.enough
  have hone : 1 ≤ min (Series.snapshots.keep sampleSettings).toNat
      ((archives sampleFiles ((snapshotsDir sampleServer sampleBase).locate [])
        snapshotPattern).filter fun x => (snapshotsDir sampleServer sampleBase).locate [] ++ [x] ≠
          Series.snapshots.own [] sampleServer sampleBase sampleTime).card := by
    decide +kernel
  exact ⟨c, hc, (Finset.card_pos.mp (hone.trans hcard)).mono hS⟩

end SrvBackup.Specification
