import SrvBackup.Adapters.ConfigDeploy
import SrvBackup.Specification.LoggingStart
import SrvBackup.Specification.Provenance

/-!
# The permission settings of a deploy

`config-deploy` takes the `--set` values of the permission settings from the command line, `config`
shows the configuration with all of them laid over it. `configDeploy_overrides` says that the two
see the same: what the library is asked to use is what `config` would show in place of the files.
Neither a configuration that cannot be loaded nor its logging settings are in the way.
-/
namespace SrvBackup.Specification

open SrvBackup.Effects SrvBackup.Storage SrvBackup.Adapters

/-- The keys of the permission settings. -/
def permissionsPath : List String := [layeredConfigSection, permissionsKey]

section Run

variable {library : DeployRequest → Except DeployError (List DeployResult)} {log : List DeployOp}

@[simp] theorem run_deployEcho (text : String) (err : Bool) (log : List DeployOp) :
    (Deploy.echo text err).run (deployHandler library) log = (.ok (), .echo text err :: log) := rfl

/-- Printing asks for nothing. -/
theorem run_deployEchoes {α : Type} (line : α → String) (err : Bool) (xs : List α) :
    ∃ log', (Program.forEach xs fun x => Deploy.echo (line x) err).run (deployHandler library) log =
      (.ok (), log') ∧ requests log' = requests log := by
  induction xs generalizing log with
  | nil => exact ⟨log, rfl, rfl⟩
  | cons x xs ih =>
    obtain ⟨log', hrun, hrequests⟩ := @ih (.echo (line x) err :: log)
    exact ⟨log', (Program.run_bind_ok (run_deployEcho _ _ _) _).trans hrun, hrequests⟩

theorem run_reportDeploymentResult (paths : List Path) (request : DeployRequest) :
    ∃ log', (reportDeploymentResult paths request).run (deployHandler library) log =
      (.ok (), log') ∧ requests log' = requests log := by
  unfold reportDeploymentResult
  split
  · obtain ⟨log', hrun, hrequests⟩ := @run_deployEchoes library
      (.echo _ false :: log) _ (fun path : Path => "  + " ++ path.str) false paths
    exact ⟨log', (Program.run_bind_ok (run_deployEcho _ _ _) _).trans hrun, hrequests⟩
  · split
    · exact ⟨_, rfl, rfl⟩
    · exact ⟨_, rfl, rfl⟩

theorem run_refuseDeploy (error : DeployError) :
    ∃ log', (refuseDeploy error).run (deployHandler library) log =
      (.error (.exit error.code), log') ∧ requests log' = requests log := by
  cases error with
  | permissionSettings problems hint =>
    obtain ⟨log', hrun, hrequests⟩ := @run_deployEchoes library log _
      (fun problem : String => "Error: " ++ problem) true problems
    cases hint with
    | true => exact ⟨_, Program.run_bind_ok hrun _, hrequests⟩
    | false => exact ⟨_, Program.run_bind_ok hrun _, hrequests⟩
  | permission text => exact ⟨_, rfl, rfl⟩
  | exit code => exact ⟨_, rfl, rfl⟩
  | other text => exact ⟨_, rfl, rfl⟩

/-- What becomes of an answer of the library. -/
theorem run_executeDeploy {R : Type} {services : AppServices R} {context : CLIContext}
    {options : DeployOptions} {profile : Option String} {overrides : Option (Table String Scalar)}
    (hpermissions : (permissionOverrides services.loads context.setOverrides).run
      (deployHandler library) [] = (.ok overrides, []))
    (hvalid : profile.elim (.ok ()) services.validateProfile = .ok ()) :
    ∃ log, (executeDeploy services context options profile).run (deployHandler library) [] =
        (((library (options.request profile overrides)).mapError fun e => .exit e.code).map
          fun _ => (), log) ∧
      requests log = [options.request profile overrides] := by
  have hdeploy : (deployConfiguration services.validateProfile
      (options.request profile overrides)).run (deployHandler library) [] =
      (.ok ((library (options.request profile overrides)).map deployedPaths),
        [.deployConfig (options.request profile overrides)]) := by
    unfold deployConfiguration
    simp only [DeployOptions.request, hvalid]
    rfl
  rw [executeDeploy, Program.bind_eq, Program.run_bind_ok hpermissions, Program.bind_eq,
    Program.run_bind_ok hdeploy]
  cases library (options.request profile overrides) with
  | ok results =>
    obtain ⟨log, hrun, hrequests⟩ := @run_reportDeploymentResult library
      [.deployConfig (options.request profile overrides)] (deployedPaths results)
      (options.request profile overrides)
    exact ⟨log, hrun, hrequests⟩
  | error error =>
    obtain ⟨log, hrun, hrequests⟩ := @run_refuseDeploy library
      [.deployConfig (options.request profile overrides)] error
    exact ⟨log, hrun, hrequests⟩

end Run

/-! ## The overrides of the section -/

section Overrides

variable {loads : String → Option Value} {raws : List String} {tree : Table String Scalar}
  {keys : Finset String}

theorem holds_of_nestOverrides (h : nestOverrides loads raws = .ok (tree, keys)) :
    Table.Holds (assignments (parsed loads raws)) tree := by
  rcases nestOverrides_eq (parses_of_nestOverrides h) with
    ⟨-, es, hes, hholds⟩ | ⟨-, key, nested, herror⟩
  · cases h.symm.trans hes
    exact hholds
  · cases h.symm.trans herror

/-- The section is a table, where there is one. -/
theorem lookup_section (h : nestOverrides loads raws = .ok (tree, keys)) :
    ∃ entries, (tree.lookup layeredConfigSection).getD (.table []) = .table entries ∧
      entries.lookup permissionsKey = (Nested.table tree).at? permissionsPath := by
  have hholds := holds_of_nestOverrides h
  cases hlookup : tree.lookup layeredConfigSection with
  | none => exact ⟨[], rfl, by simp [permissionsPath, Nested.at?_table_cons, hlookup]⟩
  | some v =>
    have hv := (Nested.at?_singleton tree layeredConfigSection).trans hlookup
    rcases hholds.only _ v (by simp) hv with ⟨q, hq, hpre⟩ | ⟨-, entries, rfl⟩
    · obtain ⟨o, ho, rfl⟩ := exists_override hq
      exact absurd hpre ((isKeyPath_of_mem_parsed ho).not_prefix_singleton _)
    · refine ⟨entries, rfl, ?_⟩
      rw [permissionsPath, Nested.at?_table_cons, hlookup]
      exact (Nested.at?_singleton entries permissionsKey).symm

theorem run_permissionOverrides {library : DeployRequest → Except DeployError (List DeployResult)}
    (h : nestOverrides loads raws = .ok (tree, keys)) :
    (∀ a, (Nested.table tree).at? permissionsPath = some (.leaf a) →
      (permissionOverrides loads raws).run (deployHandler library) [] =
        (.error (.exit configError), [.echo (mustBeTable a) true])) ∧
    ∀ overrides : Option (Table String Scalar),
      (Nested.table tree).at? permissionsPath = overrides.map .table →
      (permissionOverrides loads raws).run (deployHandler library) [] = (.ok overrides, []) := by
  obtain ⟨entries, hentries, hlookup⟩ := lookup_section h
  rw [← hlookup]
  unfold permissionOverrides
  simp only [h, hentries]
  refine ⟨fun a ha => ?_, fun overrides hoverrides => ?_⟩
  · simp only [ha]
    rfl
  · cases overrides with
    | none =>
      simp only [hoverrides, Option.map_none]
      rfl
    | some value =>
      simp only [hoverrides, Option.map_some]
      rfl

end Overrides

/-- The permission settings that the library is to use instead of the configured ones: there are
some if an override names one of them or the section; each key has its last value; and they are what
`config` shows instead of what a configuration has, whichever it is. -/
structure PermissionsAgree {R : Type} (services : AppServices R) (setOverrides : List String)
    (overrides : Option (Table String Scalar)) : Prop where
  none_iff : overrides = none ↔
    ∀ o ∈ parsed services.loads setOverrides, ¬ permissionsPath <+: o.path
  last : ∀ p v,
    Table.lastValue (assignments (parsed services.loads setOverrides)) (permissionsPath ++ p) =
      some v → overrides.bind (fun value => (Nested.table value).at? p) = some v
  shown : ∀ config result,
    applyOverrides services.loads services.withOverrides config setOverrides = .ok result →
    ∀ p a, overrides.bind (fun value => (Nested.table value).at? p) = some (.leaf a) →
      (Nested.table result.data).at? (permissionsPath ++ p) = some (.leaf a)
  only : ∀ config result,
    applyOverrides services.loads services.withOverrides config setOverrides = .ok result →
    ∀ p a, (Nested.table result.data).at? (permissionsPath ++ p) = some (.leaf a) →
      overrides.bind (fun value => (Nested.table value).at? p) = some (.leaf a) ∨
        (Nested.table config.data).at? (permissionsPath ++ p) = some (.leaf a)

section Agree

variable {R : Type} {services : AppServices R} {setOverrides : List String}
  {tree : Table String Scalar} {keys : Finset String}

/-- What the merged data come from. -/
theorem applyOverrides_tree (h : nestOverrides services.loads setOverrides = .ok (tree, keys))
    {config result : Config}
    (happly : applyOverrides services.loads services.withOverrides config setOverrides =
      .ok result) :
    setOverrides = [] ∧ result = config ∨
      result.data = services.withOverrides config.data tree := by
  unfold applyOverrides at happly
  split at happly
  · next hnil =>
    cases happly
    exact .inl ⟨hnil, rfl⟩
  · rw [h] at happly
    cases happly
    exact .inr rfl

theorem permissionsAgree_of_tree (hmerge : Table.IsMerge services.withOverrides)
    (h : nestOverrides services.loads setOverrides = .ok (tree, keys))
    {overrides : Option (Table String Scalar)}
    (hoverrides : (Nested.table tree).at? permissionsPath = overrides.map .table) :
    PermissionsAgree services setOverrides overrides := by
  have hholds := holds_of_nestOverrides h
  have hbind : ∀ p, overrides.bind (fun value => (Nested.table value).at? p) =
      (Nested.table tree).at? (permissionsPath ++ p) := by
    intro p
    rw [Nested.at?_append, hoverrides]
    cases overrides <;> rfl
  have hnil : setOverrides = [] → tree = [] := by
    rintro rfl
    cases h
    rfl
  refine ⟨?_, fun p v hv => (hbind p).trans (hholds.reads _ v hv),
    fun config result happly p a ha => ?_, fun config result happly p a ha => ?_⟩
  · have hnone : overrides = none ↔ (Nested.table tree).at? permissionsPath = none := by
      rw [hoverrides]
      cases overrides <;> simp
    rw [hnone]
    constructor
    · rintro habsent o ho ⟨p, hp⟩
      have hmem : o.path ∈ (assignments (parsed services.loads setOverrides)).map Prod.fst := by
        rw [map_fst_assignments]
        exact List.mem_map_of_mem ho
      obtain ⟨v, hv⟩ := Table.exists_lastValue.mpr hmem
      have hread := hholds.reads _ v hv
      rw [← hp, Nested.at?_append, habsent] at hread
      cases hread
    · intro hfree
      cases hthere : (Nested.table tree).at? permissionsPath with
      | none => rfl
      | some v =>
        rcases hholds.only _ v (by simp [permissionsPath]) hthere with
          ⟨q, hq, hpre⟩ | ⟨⟨q, hq, hpre⟩, -⟩
        · obtain ⟨o, ho, rfl⟩ := exists_override hq
          refine absurd ?_ (hfree o ho)
          exact hpre.eq_of_length_le (isKeyPath_of_mem_parsed ho).1 ▸ List.prefix_rfl
        · obtain ⟨o, ho, rfl⟩ := exists_override hq
          exact absurd hpre (hfree o ho)
  · rw [hbind] at ha
    rcases applyOverrides_tree h happly with ⟨hempty, rfl⟩ | hdata
    · rw [hnil hempty] at ha
      cases ha
    · rw [hdata]
      exact hmerge.at?_leaf ha
  · rw [hbind]
    rcases applyOverrides_tree h happly with ⟨-, rfl⟩ | hdata
    · exact .inr ha
    · rw [hdata] at ha
      cases ht : (Nested.table tree).at? (permissionsPath ++ p) with
      | none => exact .inr (hmerge.at?_base ht ha)
      | some v =>
        cases v with
        | leaf b =>
          rw [hmerge.at?_leaf ht] at ha
          exact .inl ha
        | table es =>
          obtain ⟨es', hes'⟩ := @Table.IsMerge.at?_table _ _ _ _ hmerge config.data _ _ _ ht
          rw [hes'] at ha
          cases ha

end Agree

/-- What the section itself is given. -/
theorem at?_permissionsPath {loads : String → Option Value} {raws : List String}
    {tree : Table String Scalar} {keys : Finset String}
    (h : nestOverrides loads raws = .ok (tree, keys)) {a : Scalar}
    (ha : (Nested.table tree).at? permissionsPath = some (.leaf a)) :
    Table.lastValue (assignments (parsed loads raws)) permissionsPath = some (.leaf a) := by
  have hholds := holds_of_nestOverrides h
  rcases hholds.only _ _ (by simp [permissionsPath]) ha with ⟨q, hq, hpre⟩ | ⟨-, sub, hsub⟩
  · obtain ⟨v, hv⟩ := Table.exists_lastValue.mpr hq
    obtain ⟨o, ho, rfl⟩ := exists_override hq
    rw [hpre.eq_of_length_le (isKeyPath_of_mem_parsed ho).1] at hv
    rw [hv, ← hholds.reads _ v hv, ha]
  · cases hsub

section Command

variable {R : Type} {services : AppServices R} {rootProfile envFile : Option String}
  {setOverrides : List String} {environ : Environ} {options : DeployOptions}

/-- The profile that counts has been checked, by the root or by the command. -/
theorem validateProfile_effective {profile : Option String}
    (hroot : checkProfile services rootProfile = .ok ())
    (hname : checkProfileName services profile = .ok ()) :
    ((given profile).or rootProfile).elim (.ok ()) services.validateProfile = .ok () := by
  have hvalid : ∀ (p : String) (f : String → Stop),
      (services.validateProfile p).mapError f = .ok () → services.validateProfile p = .ok () := by
    intro p f h
    cases hp : services.validateProfile p with
    | ok => rfl
    | error text =>
      rw [hp] at h
      cases h
  have hrootValid : rootProfile.elim (.ok ()) services.validateProfile = .ok () := by
    cases rootProfile with
    | none => rfl
    | some root => exact hvalid root _ hroot
  cases profile with
  | none => exact hrootValid
  | some p =>
    by_cases hempty : p = ""
    · rwa [given, if_pos hempty]
    · rw [given, if_neg hempty]
      exact hvalid p _ hname

/-- The command runs whether or not the configuration loads. It refuses a permission section that is
given a value, and otherwise asks the library once, with overrides that agree with what `config`
shows; the exit code is the library's word. -/
theorem configDeploy_overrides (hlib : services.logging.Lawful)
    (hmerge : Table.IsMerge services.withOverrides)
    (hroot : checkProfile services rootProfile = .ok ())
    (hset : ∃ r, nestOverrides services.loads setOverrides = .ok r)
    (hfit : LinesFit services.files envFile (newProcess services environ))
    (hname : checkProfileName services options.profile = .ok ()) (hoptions : ¬ options.Contradict)
    (library : DeployRequest → Except DeployError (List DeployResult)) :
    ∃ command, configDeploy services rootProfile setOverrides envFile environ options =
        .ok command ∧
      (∀ a, Table.lastValue (assignments (parsed services.loads setOverrides)) permissionsPath =
          some (.leaf a) →
        command.run (deployHandler library) [] =
          (.error (.exit configError), [.echo (mustBeTable a) true])) ∧
      ((∀ a, Table.lastValue (assignments (parsed services.loads setOverrides)) permissionsPath ≠
          some (.leaf a)) →
        ∃ overrides log, PermissionsAgree services setOverrides overrides ∧
          command.run (deployHandler library) [] =
            (((library (options.request ((given options.profile).or rootProfile)
              overrides)).mapError fun e => .exit e.code).map fun _ => (), log) ∧
          requests log = [options.request ((given options.profile).or rootProfile) overrides]) := by
  obtain ⟨⟨tree, keys⟩, htree⟩ := hset
  obtain ⟨loaded, hloaded⟩ := exists_loadConfig hroot ⟨_, htree⟩ envFile
  obtain ⟨process, context, hcli, -, hprofile, hcontext, -⟩ := cli_of_loaded hlib hloaded hfit
  have hholds := holds_of_nestOverrides htree
  have hcommand : cliConfigDeploy services context options =
      executeDeploy services context options ((given options.profile).or rootProfile) := by
    rw [cliConfigDeploy, if_neg hoptions, getEffectiveProfile, hprofile]
  refine ⟨cliConfigDeploy services context options, ?_, fun a ha => ?_, fun hno => ?_⟩
  · rw [configDeploy, hcli]
    change (checkProfileName services options.profile >>= _) = _
    rw [hname]
    rfl
  · have hrun := (@run_permissionOverrides _ _ _ _ library htree).1 a (hholds.reads _ _ ha)
    rw [hcommand, executeDeploy, hcontext, Program.bind_eq, Program.run_bind_error hrun]
  · obtain ⟨overrides, hoverrides⟩ : ∃ overrides : Option (Table String Scalar),
        (Nested.table tree).at? permissionsPath = overrides.map .table := by
      cases hthere : (Nested.table tree).at? permissionsPath with
      | none => exact ⟨none, rfl⟩
      | some v =>
        cases v with
        | table value => exact ⟨some value, rfl⟩
        | leaf a => exact absurd (at?_permissionsPath htree hthere) (hno a)
    obtain ⟨log, hrun, hrequests⟩ := @run_executeDeploy library _ services context options _ _
      (hcontext ▸ (@run_permissionOverrides _ _ _ _ library htree).2 overrides hoverrides)
      (validateProfile_effective hroot hname)
    exact ⟨overrides, log, permissionsAgree_of_tree hmerge htree hoverrides, hcommand ▸ hrun,
      hrequests⟩

end Command

/-- A loader that fails, with the overrides of two permission settings. -/
def deployServices : AppServices (Table String Scalar) where
  getConfig _ _ := .error "config.toml is not UTF-8"
  validateProfile profile :=
    if profile = "" then .error "profile name cannot be empty" else .ok ()
  loads _ := none
  repr text := "'" ++ text ++ "'"
  withOverrides := Table.merge
  logging := levelLogging
  files := ⟨none, fun _ => none, fun _ => none, fun _ _ => none⟩
  unencodable _ := none

def deployOverrides : List String :=
  ["lib_layered_config.default_permissions.user_file=0o640",
    "lib_layered_config.default_permissions.user_file=0o600"]

/-- With a configuration that does not load, the library is asked with the last override. -/
theorem configDeploy_overrides_sample :
    ∃ command log, configDeploy deployServices none deployOverrides none (fun _ => none)
        { targets := [.user] } = .ok command ∧
      command.run (deployHandler fun _ => .ok []) [] = (.ok (), log) ∧
      ∃ value, requests log = [⟨[.user], false, none, none, none, none, some value⟩] ∧
        (Nested.table value).at? ["user_file"] = some (.leaf (.str "0o600")) := by
  have hset : ∃ r, nestOverrides deployServices.loads deployOverrides = .ok r := ⟨_, rfl⟩
  have hfit : LinesFit deployServices.files none (newProcess deployServices fun _ => none) := by
    intro name value hmem
    cases hmem
  obtain ⟨command, hcommand, -, hdeploy⟩ := @configDeploy_overrides _ deployServices none none
    deployOverrides (fun _ => none) { targets := [.user] } levelLogging_lawful Table.merge_isMerge
    rfl hset hfit rfl (by decide) fun _ => .ok []
  have hsection : Table.lastValue (assignments (parsed deployServices.loads deployOverrides))
      permissionsPath = none := rfl
  obtain ⟨overrides, log, hagree, hrun, hrequests⟩ := hdeploy (by simp [hsection])
  have hlast := hagree.last ["user_file"] (.leaf (.str "0o600")) rfl
  cases overrides with
  | none => cases hlast
  | some value => exact ⟨command, log, hcommand, hrun, value, hrequests, hlast⟩

end SrvBackup.Specification
