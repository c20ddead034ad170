import SrvBackup.Adapters.SetupKeys

/-!
# Runs on key files

What a run does to the log, the local files and the `authorized_keys` files, by its footprint:
every run records its operations and only adds keys, and without a key generation or a new
directory it leaves the local files.
-/
namespace SrvBackup.Adapters

open SrvBackup.Domain SrvBackup.Effects SrvBackup.Storage SrvBackup.Text

/-! ## Keys in a text -/

theorem hasKey_iff {key : String} (hkey : '\n' ∉ key.toList) (content : String) :
    HasKey key content ↔ key.toList <:+: content.toList :=
  exists_infix_piece hkey content.toList

/-- Appending leaves the keys, also when the last line of the text had no end. -/
theorem HasKey.append {key content : String} (hkey : '\n' ∉ key.toList) (h : HasKey key content)
    (more : String) : HasKey key (content ++ more) := by
  rw [hasKey_iff hkey] at h ⊢
  rw [String.toList_append]
  exact h.trans (List.infix_append' [] _ _)

theorem hasKey_of_appended {key : String} (hkey : '\n' ∉ key.toList) (content : String) :
    HasKey key (content ++ key ++ "\n") := by
  rw [hasKey_iff hkey, String.toList_append, String.toList_append]
  exact List.infix_append _ _ _

/-- A text that a shell and `grep` take for one line of text. -/
def KeyLine (key : String) : Prop := '\n' ∉ key.toList ∧ '\'' ∉ key.toList

instance (key : String) : Decidable (KeyLine key) := by unfold KeyLine; infer_instance

theorem ofText?_checkCommand {key : String} (hkey : '\'' ∉ key.toList) (path : String) :
    RemoteCommand.ofText? (checkCommand key path) = some (.check key path) := by
  have htext : (checkCommand key path).toList = "grep -qF '".toList ++ (key.toList ++ '\'' ::
      (" ".toList ++ (path.toList ++ " 2>/dev/null && echo FOUND || echo MISSING".toList))) := by
    simp only [checkCommand, String.toList_append, List.append_assoc]
    rfl
  rw [RemoteCommand.ofText?, htext, List.dropPrefix?_append_of_beq _ (by decide)]
  simp only [quoted_append hkey, List.dropPrefix?_append_of_beq _ (beq_self_eq_true _)]
  have hfile : (path.toList ++ " 2>/dev/null && echo FOUND || echo MISSING".toList).dropSuffix?
      " 2>/dev/null && echo FOUND || echo MISSING".toList = some path.toList :=
    List.dropSuffix?_eq_some_iff.mpr ⟨_, rfl, beq_self_eq_true _⟩
  simp only [hfile, Option.bind_eq_bind, Option.bind_some, String.ofList_toList]

theorem ofText?_appendCommand {key : String} (hkey : '\'' ∉ key.toList) (path : String) :
    RemoteCommand.ofText? (appendCommand key path) = some (.append key path) := by
  have htext : (appendCommand key path).toList = "echo '".toList ++ (key.toList ++ '\'' ::
      (" >> ".toList ++ path.toList)) := by
    simp only [appendCommand, String.toList_append, List.append_assoc]
    rfl
  have hgrep : ("echo '".toList ++ (key.toList ++ '\'' ::
      (" >> ".toList ++ path.toList))).dropPrefix? "grep -qF '".toList = none := rfl
  rw [RemoteCommand.ofText?, htext, hgrep, List.dropPrefix?_append_of_beq _ (by decide)]
  simp only [quoted_append hkey, List.dropPrefix?_append_of_beq _ (beq_self_eq_true _),
    Option.bind_eq_bind, Option.bind_some, String.ofList_toList]

/-! ## What operations leave -/

/-- The operation leaves the local files. -/
def KeyOp.Reads : KeyOp → Prop
  | .mkdir _ => False
  | .run cmd => keygenFile? cmd = none
  | _ => True

/-- The operation generates no key pair with a file at the location. -/
def KeyOp.Spares (cwd loc : List Component) : KeyOp → Prop
  | .run cmd => ∀ file, keygenFile? cmd = some file →
    (Path.ofString file).locate cwd ≠ loc ∧ (Path.ofString (file ++ ".pub")).locate cwd ≠ loc
  | _ => True

/-- The operation appends nothing on a host. -/
def KeyOp.Looks : KeyOp → Prop
  | .run cmd => ∀ key file, RemoteCommand.ofText? cmd.text ≠ some (.append key file)
  | _ => True

theorem KeyOp.Reads.spares {o : KeyOp} (ho : o.Reads) (cwd loc : List Component) :
    o.Spares cwd loc := by
  cases o with
  | run cmd =>
    intro file hfile
    rw [show keygenFile? cmd = none from ho] at hfile
    cases hfile
  | _ => trivial

namespace KeyEnv

variable {F : Type} [DecidableEq F] {cluster : Cluster F} {env : KeyEnv F} {α : Type}

omit [DecidableEq F] in
/-- The tree after `ssh-keygen` has what creating the two files keeps. -/
theorem runKeygen_preserves {I : KeyFiles → Prop} (n : Nat) (file : String) {t : KeyFiles}
    (hcreate : ∀ privateKey publicKey, env.keygen n = .generated privateKey publicKey → ∀ t t',
      (t.create ((Path.ofString file).locate cluster.cwd) privateKey = some t' ∨
        t.create ((Path.ofString (file ++ ".pub")).locate cluster.cwd) publicKey = some t') →
      I t → I t') (ht : I t) : I (env.runKeygen cluster n file t).2 := by
  unfold runKeygen
  cases hend : env.keygen n with
  | failed code nonzero stderr => exact ht
  | notStarted e => exact ht
  | generated privateKey publicKey =>
    have hstep := hcreate privateKey publicKey hend
    cases hu : t.create ((Path.ofString file).locate cluster.cwd) privateKey with
    | none => simpa only [hu] using ht
    | some u =>
      have hu' := hstep t u (.inl hu) ht
      cases hv : u.create ((Path.ofString (file ++ ".pub")).locate cluster.cwd) publicKey with
      | none => simpa only [hu, hv] using hu'
      | some v => simpa only [hu, hv] using hstep u v (.inr hv) hu'

/-- The tree after an operation has what making its directories and creating its files keep. -/
theorem handler_preserves {I : KeyFiles → Prop} {o : KeyOp} {w : KeyWorld F}
    (hmkdirs : ∀ path t t', o = .mkdir path → t.mkdirs (path.locate cluster.cwd) = some t' →
      I t → I t')
    (hcreate : ∀ cmd file, o = .run cmd → keygenFile? cmd = some file →
      ∀ n privateKey publicKey, env.keygen n = .generated privateKey publicKey → ∀ t t',
      (t.create ((Path.ofString file).locate cluster.cwd) privateKey = some t' ∨
        t.create ((Path.ofString (file ++ ".pub")).locate cluster.cwd) publicKey = some t') →
      I t → I t') (hw : I w.files) : I (env.handler cluster o w).2.files := by
  cases o with
  | mkdir path =>
    change I (Env.update _ _ _ _).2
    unfold Env.update
    cases env.fault (.mkdir path) with
    | some e => exact hw
    | none =>
      cases ht : w.files.mkdirs (path.locate cluster.cwd) with
      | none => exact hw
      | some t => exact hmkdirs path _ _ rfl ht hw
  | pathExists path => exact hw
  | readText path =>
    have hfiles : (env.handler cluster (.readText path) w).2.files = w.files := by
      simp only [handler, act]
      split <;> rfl
    rwa [hfiles]
  | chmod path mode =>
    have hfiles : (env.handler cluster (.chmod path mode) w).2.files = w.files := by
      simp only [handler, act]
      split <;> rfl
    rwa [hfiles]
  | run cmd =>
    simp only [handler, act]
    cases hfile : keygenFile? cmd with
    | some file =>
      exact runKeygen_preserves w.log.length file (hcreate cmd file rfl hfile w.log.length) hw
    | none =>
      cases cmd.destination? with
      | none => exact hw
      | some destination => exact hw

theorem files_handler {o : KeyOp} (ho : o.Reads) (w : KeyWorld F) :
    (env.handler cluster o w).2.files = w.files := by
  refine handler_preserves (I := fun t => t = w.files) ?_ ?_ rfl
  · rintro path t t' rfl
    exact ho.elim
  · rintro cmd file rfl hfile
    rw [show keygenFile? cmd = none from ho] at hfile
    cases hfile

theorem authorized_runRemote {n : Nat} {destination text : String}
    (htext : ∀ key file, RemoteCommand.ofText? text ≠ some (.append key file))
    (authorized : F → Option String) :
    (env.runRemote cluster n destination text authorized).2 = authorized := by
  unfold runRemote
  cases hcommand : RemoteCommand.ofText? text with
  | none => rfl
  | some command =>
    cases command with
    | check key file => rfl
    | append key file => exact absurd hcommand (htext key file)

theorem authorized_handler {o : KeyOp} (ho : o.Looks) (w : KeyWorld F) :
    (env.handler cluster o w).2.authorized = w.authorized := by
  cases o with
  | mkdir path => rfl
  | pathExists path => rfl
  | readText path =>
    simp only [handler, act]
    split <;> rfl
  | chmod path mode =>
    simp only [handler, act]
    split <;> rfl
  | run cmd =>
    simp only [handler, act]
    cases keygenFile? cmd with
    | some file => rfl
    | none =>
      cases cmd.destination? with
      | none => rfl
      | some destination =>
        have hremote : (env.runRemote cluster w.log.length destination cmd.text w.authorized).2 =
            w.authorized := authorized_runRemote ho _
        simp only [runCall]
        cases env.call w.log.length with
        | answered => exact hremote
        | notStarted e => rfl
        | dropped ran stderr => cases ran <;> simp [hremote]

theorem content?_handler {loc : List Component} {o : KeyOp} (ho : o.Spares cluster.cwd loc)
    {w : KeyWorld F} {text : String} (h : w.files.content? loc = some text) :
    (env.handler cluster o w).2.files.content? loc = some text := by
  refine handler_preserves (I := fun t => t.content? loc = some text) ?_ ?_ h
  · intro path t t' _ ht h
    rw [FileTree.content?_mkdirs ht, h]
  · rintro cmd file rfl hfile n privateKey publicKey - t t' ht h
    obtain ⟨hkey, hpub⟩ := ho file hfile
    rcases ht with ht | ht <;> rw [(FileTree.create_eq_some ht).2, FileTree.content?_set]
    · rw [if_neg (Ne.symm hkey), h]
    · rw [if_neg (Ne.symm hpub), h]

/-! ## What runs leave -/

/-- The operations of the run from `w` to `w'` satisfy `P`. -/
def Since (P : KeyOp → Prop) (w w' : KeyWorld F) : Prop :=
  ∃ ops, w'.log = ops ++ w.log ∧ ∀ o ∈ ops, P o

omit [DecidableEq F] in
theorem Since.refl {P : KeyOp → Prop} (w : KeyWorld F) : Since P w w := ⟨[], rfl, by simp⟩

omit [DecidableEq F] in
theorem Since.trans {P : KeyOp → Prop} {u v w : KeyWorld F} (h : Since P u v) (h' : Since P v w) :
    Since P u w := by
  obtain ⟨ops, hops, hP⟩ := h
  obtain ⟨ops', hops', hP'⟩ := h'
  refine ⟨ops' ++ ops, by rw [hops', hops, List.append_assoc], fun o ho => ?_⟩
  rcases List.mem_append.mp ho with ho | ho
  · exact hP' o ho
  · exact hP o ho

omit [DecidableEq F] in
theorem Since.mono {P Q : KeyOp → Prop} (hPQ : ∀ o, P o → Q o) {w w' : KeyWorld F}
    (h : Since P w w') : Since Q w w' := by
  obtain ⟨ops, hops, hP⟩ := h
  exact ⟨ops, hops, fun o ho => hPQ o (hP o ho)⟩

/-- The run from `w` to `w'` performs `o`. -/
def Logged (o : KeyOp) (w w' : KeyWorld F) : Prop := ∃ ops, w'.log = ops ++ w.log ∧ o ∈ ops

omit [DecidableEq F] in
theorem Logged.of_since {P : KeyOp → Prop} {o : KeyOp} {w w' : KeyWorld F} (h : Logged o w w')
    (hP : Since P w w') : P o := by
  obtain ⟨ops, hops, ho⟩ := h
  obtain ⟨ops', hops', hP⟩ := hP
  have heq : ops = ops' := List.append_cancel_right (hops.symm.trans hops')
  exact hP o (heq ▸ ho)

omit [DecidableEq F] in
theorem Logged.trans_since {P : KeyOp → Prop} {o : KeyOp} {u v w : KeyWorld F}
    (h : Logged o u v) (h' : Since P v w) : Logged o u w := by
  obtain ⟨ops, hops, ho⟩ := h
  obtain ⟨ops', hops', -⟩ := h'
  exact ⟨ops' ++ ops, by rw [hops', hops, List.append_assoc], List.mem_append_right _ ho⟩

omit [DecidableEq F] in
theorem Since.trans_logged {P : KeyOp → Prop} {o : KeyOp} {u v w : KeyWorld F}
    (h : Since P u v) (h' : Logged o v w) : Logged o u w := by
  obtain ⟨ops, hops, -⟩ := h
  obtain ⟨ops', hops', ho⟩ := h'
  exact ⟨ops' ++ ops, by rw [hops', hops, List.append_assoc], List.mem_append_left _ ho⟩

theorem since_handler {P : KeyOp → Prop} {o : KeyOp} (ho : P o) (w : KeyWorld F) :
    Since P w (env.handler cluster o w).2 :=
  ⟨[o], rfl, by simpa using ho⟩

theorem since_run {P : KeyOp → Prop} {p : KeyProg α} (hp : p.Performs (E := KeySys) P)
    (w : KeyWorld F) : Since P w (p.run (env.handler cluster) w).2 := by
  induction p generalizing w with
  | ret a => exact .refl w
  | raise e => exact .refl w
  | op o next ih => exact (since_handler (o := o) hp.1 w).trans (ih _ (hp.2 _) _)

theorem logged_run_op {o : KeyOp} (next : KeyAnswer o → KeyProg α) (w : KeyWorld F) :
    Logged o w ((Program.op (E := KeySys) o next).run (env.handler cluster) w).2 := by
  have hfirst : Logged o w (env.handler cluster o w).2 := ⟨[o], rfl, by simp⟩
  exact hfirst.trans_since (since_run (Program.performs_true _) _)

theorem logged_run_bind {β : Type} {o : KeyOp} {p : KeyProg α} {w : KeyWorld F}
    (h : Logged o w (p.run (env.handler cluster) w).2) (f : α → KeyProg β) :
    Logged o w ((p.bind f).run (env.handler cluster) w).2 := by
  rw [Program.run_bind]
  split
  · next a u hrun =>
    rw [hrun] at h
    exact h.trans_since (since_run (Program.performs_true _) u)
  · next e u hrun =>
    rw [hrun] at h
    exact h

theorem files_run {p : KeyProg α} (hp : p.Performs (E := KeySys) KeyOp.Reads) (w : KeyWorld F) :
    (p.run (env.handler cluster) w).2.files = w.files :=
  hp.run_preserves (I := fun u : KeyWorld F => u.files = w.files)
    (fun _ u ho hu => (files_handler ho u).trans hu) rfl

theorem authorized_run {p : KeyProg α} (hp : p.Performs (E := KeySys) KeyOp.Looks)
    (w : KeyWorld F) : (p.run (env.handler cluster) w).2.authorized = w.authorized :=
  hp.run_preserves (I := fun u : KeyWorld F => u.authorized = w.authorized)
    (fun _ u ho hu => (authorized_handler ho u).trans hu) rfl

theorem content?_run {loc : List Component} {p : KeyProg α}
    (hp : p.Performs (E := KeySys) (KeyOp.Spares cluster.cwd loc)) {w : KeyWorld F} {text : String}
    (h : w.files.content? loc = some text) :
    (p.run (env.handler cluster) w).2.files.content? loc = some text :=
  hp.run_preserves (I := fun u : KeyWorld F => u.files.content? loc = some text)
    (fun _ _ ho => content?_handler ho) h

/-- What is there stays: local entries, directories, and keys on the hosts. -/
structure Grows (w w' : KeyWorld F) : Prop where
  has : ∀ loc, w.files.has loc → w'.files.has loc
  isDir : ∀ loc, w.files.isDir loc → w'.files.isDir loc
  holdsKey : ∀ f key, '\n' ∉ key.toList → HoldsKey w.authorized f key →
    HoldsKey w'.authorized f key

omit [DecidableEq F] in
theorem Grows.refl (w : KeyWorld F) : Grows w w := ⟨fun _ h => h, fun _ h => h, fun _ _ _ h => h⟩

omit [DecidableEq F] in
theorem Grows.trans {u v w : KeyWorld F} (h : Grows u v) (h' : Grows v w) : Grows u w :=
  ⟨fun loc hu => h'.has loc (h.has loc hu), fun loc hu => h'.isDir loc (h.isDir loc hu),
    fun f key hkey hu => h'.holdsKey f key hkey (h.holdsKey f key hkey hu)⟩

theorem holdsKey_runRemote {n : Nat} {destination text : String} {authorized : F → Option String}
    {f : F} {key : String} (hkey : '\n' ∉ key.toList) (h : HoldsKey authorized f key) :
    HoldsKey (env.runRemote cluster n destination text authorized).2 f key := by
  unfold runRemote
  cases RemoteCommand.ofText? text with
  | none => exact h
  | some command =>
    cases command with
    | check key' file => exact h
    | append key' file =>
      dsimp only
      split
      · exact h
      · obtain ⟨content, hcontent, hhas⟩ := h
        by_cases hf : f = cluster.store destination file
        · subst hf
          have hold : authorized (cluster.store destination file) = some content := hcontent
          refine ⟨content ++ key' ++ "\n", by simp [hold], ?_⟩
          rw [String.append_assoc]
          exact hhas.append hkey _
        · exact ⟨content, by simpa [Function.update_of_ne hf] using hcontent, hhas⟩

theorem holdsKey_runCall {n : Nat} {destination text : String} {authorized : F → Option String}
    {f : F} {key : String} (hkey : '\n' ∉ key.toList) (h : HoldsKey authorized f key) :
    HoldsKey (env.runCall cluster n destination text authorized).2 f key := by
  unfold runCall
  cases env.call n with
  | answered => exact holdsKey_runRemote hkey h
  | notStarted e => exact h
  | dropped ran stderr =>
    cases ran with
    | false => exact h
    | true => exact holdsKey_runRemote hkey h

theorem grows_handler (o : KeyOp) (w : KeyWorld F) : Grows w (env.handler cluster o w).2 where
  has loc h := by
    refine handler_preserves (I := fun t => t.has loc) ?_ ?_ h
    · intro path t t' _ ht h
      rcases Bool.or_eq_true _ _ ▸ h with hroot | hsome
      · simp [FileTree.has, hroot]
      · obtain ⟨e, he⟩ := Option.isSome_iff_exists.mp hsome
        exact FileTree.has_of_get? (FileTree.get?_mkdirs_of_some ht he)
    · rintro cmd file - - n privateKey publicKey - t t' (ht | ht) h
      all_goals
        rw [(FileTree.create_eq_some ht).2]
        exact FileTree.has_set.mpr (.inr h)
  isDir loc h := by
    refine handler_preserves (I := fun t => t.isDir loc) ?_ ?_ h
    · intro path t t' _ ht h
      rcases FileTree.isDir_iff.mp h with rfl | hget
      · rfl
      · exact FileTree.isDir_iff.mpr (.inr (FileTree.get?_mkdirs_of_some ht hget))
    · rintro cmd file - - n privateKey publicKey - t t' (ht | ht) h <;>
        exact FileTree.isDir_create ht h
  holdsKey f key hkey h := by
    cases o with
    | mkdir path => exact h
    | pathExists path => exact h
    | readText path =>
      simp only [handler, act]
      split <;> exact h
    | chmod path mode =>
      simp only [handler, act]
      split <;> exact h
    | run cmd =>
      simp only [handler, act]
      cases keygenFile? cmd with
      | some file => exact h
      | none =>
        cases cmd.destination? with
        | none => exact h
        | some destination => exact holdsKey_runCall hkey h

theorem grows_run (p : KeyProg α) (w : KeyWorld F) :
    Grows w (p.run (env.handler cluster) w).2 := by
  induction p generalizing w with
  | ret a => exact .refl w
  | raise e => exact .refl w
  | op o next ih => exact (grows_handler o w).trans (ih _ _)

theorem grows_of_run {p : KeyProg α} {w w' : KeyWorld F} {r : Except Error α}
    (h : p.run (env.handler cluster) w = (r, w')) : Grows w w' := by
  have hgrows : Grows w (p.run (env.handler cluster) w).2 := grows_run p w
  rwa [h] at hgrows

/-! ## Calls -/

section Calls

variable {w w' : KeyWorld F} {n : Nat} {destination key path : String}
  {authorized authorized' : F → Option String} {r : CompletedProcess}

@[simp] theorem run_pathExists (path : Path) (w : KeyWorld F) :
    (Keys.pathExists path).run (env.handler cluster) w =
      (.ok (w.files.has (path.locate cluster.cwd)),
        ⟨w.files, w.authorized, .pathExists path :: w.log⟩) := rfl

theorem run_raiseOS_eq_ok {x : Except OSError α} {a : α}
    (h : (Keys.raiseOS x).run (env.handler cluster) w = (.ok a, w')) : x = .ok a ∧ w' = w := by
  cases x with
  | ok b => cases h; exact ⟨rfl, rfl⟩
  | error e => cases h

theorem run_subprocessRun (cluster : Cluster F) (env : KeyEnv F)
    (key user hostname command : String) (w : KeyWorld F) :
    (Keys.subprocessRun (keySshCmd key user hostname command)).run (env.handler cluster) w =
      (Keys.raiseOS (env.runCall cluster w.log.length (user ++ "@" ++ hostname) command
        w.authorized).1).run (env.handler cluster)
        ⟨w.files, (env.runCall cluster w.log.length (user ++ "@" ++ hostname) command
          w.authorized).2, .run (keySshCmd key user hostname command) :: w.log⟩ := rfl

theorem run_subprocessRun_eq_ok {user hostname command : String}
    (h : (Keys.subprocessRun (keySshCmd key user hostname command)).run (env.handler cluster) w =
      (.ok r, w')) :
    env.runCall cluster w.log.length (user ++ "@" ++ hostname) command w.authorized =
      (.ok r, w'.authorized) := by
  obtain ⟨hr, rfl⟩ := run_raiseOS_eq_ok h
  exact Prod.ext hr rfl

/-- A call that ends with status 0 was answered. -/
theorem runRemote_of_runCall {text : String}
    (h : env.runCall cluster n destination text authorized = (.ok r, authorized'))
    (hr : r.returncode = 0) :
    env.runRemote cluster n destination text authorized = (r, authorized') := by
  unfold runCall at h
  cases hcall : env.call n with
  | answered =>
    simp only [hcall, Prod.mk.injEq, Except.ok.injEq] at h
    exact Prod.ext h.1 h.2
  | notStarted e => simp [hcall] at h
  | dropped ran stderr =>
    simp only [hcall, Prod.mk.injEq, Except.ok.injEq] at h
    rw [← h.1] at hr
    cases hr

theorem runRemote_check (hkey : KeyLine key) :
    env.runRemote cluster n destination (checkCommand key path) authorized =
      (⟨0, if HoldsKey authorized (cluster.store destination path) key then "FOUND\n"
        else "MISSING\n", ""⟩, authorized) := by
  rw [runRemote, ofText?_checkCommand hkey.2]

theorem holdsKey_of_check (hkey : KeyLine key)
    (h : env.runCall cluster n destination (checkCommand key path) authorized =
      (.ok r, authorized'))
    (hr : r.returncode = 0) (hfound : "FOUND".toList <:+: r.stdout.toList) :
    HoldsKey authorized' (cluster.store destination path) key := by
  have hremote := runRemote_of_runCall h hr
  rw [runRemote_check hkey, Prod.mk.injEq] at hremote
  obtain ⟨rfl, rfl⟩ := hremote
  by_contra hmissing
  rw [if_neg hmissing] at hfound
  exact absurd hfound (by decide)

theorem holdsKey_of_append (hkey : KeyLine key)
    (h : env.runCall cluster n destination (appendCommand key path) authorized =
      (.ok r, authorized'))
    (hr : r.returncode = 0) : HoldsKey authorized' (cluster.store destination path) key := by
  have hremote := runRemote_of_runCall h hr
  rw [runRemote, ofText?_appendCommand hkey.2] at hremote
  dsimp only at hremote
  split at hremote
  · obtain ⟨rfl, -⟩ := Prod.mk.inj hremote
    cases hr
  · obtain ⟨-, rfl⟩ := Prod.mk.inj hremote
    exact ⟨_, Function.update_self .., hasKey_of_appended hkey.1 _⟩

/-- Making a directory fails and leaves the tree, or makes what was not there. -/
theorem run_mkdir (cluster : Cluster F) (env : KeyEnv F) (path : Path) (w : KeyWorld F) :
    (∃ e, (Keys.mkdir path).run (env.handler cluster) w =
      (.error e, ⟨w.files, w.authorized, .mkdir path :: w.log⟩)) ∨
    ∃ t, w.files.mkdirs (path.locate cluster.cwd) = some t ∧
      (Keys.mkdir path).run (env.handler cluster) w =
        (.ok (), ⟨t, w.authorized, .mkdir path :: w.log⟩) := by
  have hrun : ∀ answer t, env.handler cluster (.mkdir path) w =
      (answer, ⟨t, w.authorized, .mkdir path :: w.log⟩) →
      (Keys.mkdir path).run (env.handler cluster) w = (Keys.raiseOS answer).run
        (env.handler cluster) ⟨t, w.authorized, .mkdir path :: w.log⟩ := by
    intro answer t h
    have hstep : (Keys.mkdir path).run (env.handler cluster) w =
        (Keys.raiseOS (env.handler cluster (.mkdir path) w).1).run (env.handler cluster)
          (env.handler cluster (.mkdir path) w).2 := rfl
    rw [hstep, h]
  cases hfault : env.fault (.mkdir path) with
  | some e =>
    exact .inl ⟨.os e, hrun (.error e) _ (by simp only [handler, act, Env.update, hfault])⟩
  | none =>
    cases hmade : w.files.mkdirs (path.locate cluster.cwd) with
    | none =>
      exact .inl
        ⟨_, hrun (.error _) _ (by simp only [handler, act, Env.update, hfault, hmade]; rfl)⟩
    | some t =>
      exact .inr ⟨t, rfl, hrun (.ok ()) t (by simp only [handler, act, Env.update, hfault, hmade])⟩

/-- Reading fails, or returns the text of the file. -/
theorem run_readText (cluster : Cluster F) (env : KeyEnv F) (path : Path) (w : KeyWorld F) :
    (∃ e, (Keys.readText path).run (env.handler cluster) w =
      (.error e, ⟨w.files, w.authorized, .readText path :: w.log⟩)) ∨
    ∃ text, w.files.content? (path.locate cluster.cwd) = some text ∧
      (Keys.readText path).run (env.handler cluster) w =
        (.ok text, ⟨w.files, w.authorized, .readText path :: w.log⟩) := by
  have hrun : ∀ answer, env.handler cluster (.readText path) w =
      (answer, ⟨w.files, w.authorized, .readText path :: w.log⟩) →
      (Keys.readText path).run (env.handler cluster) w = (Keys.raiseOS answer).run
        (env.handler cluster) ⟨w.files, w.authorized, .readText path :: w.log⟩ := by
    intro answer h
    have hstep : (Keys.readText path).run (env.handler cluster) w =
        (Keys.raiseOS (env.handler cluster (.readText path) w).1).run (env.handler cluster)
          (env.handler cluster (.readText path) w).2 := rfl
    rw [hstep, h]
  cases hfault : env.fault (.readText path) with
  | some e => exact .inl ⟨.os e, hrun (.error e) (by simp only [handler, act, hfault])⟩
  | none =>
    cases hcontent : w.files.content? (path.locate cluster.cwd) with
    | none => exact .inl ⟨_, hrun (.error _) (by simp only [handler, act, hfault, hcontent]; rfl)⟩
    | some text =>
      exact .inr ⟨text, rfl, hrun (.ok text) (by simp only [handler, act, hfault, hcontent])⟩

theorem run_readText_of_content {file : Path} {text : String}
    (hfault : env.fault (.readText file) = none)
    (hcontent : w.files.content? (file.locate cluster.cwd) = some text) :
    (Keys.readText file).run (env.handler cluster) w =
      (.ok text, ⟨w.files, w.authorized, .readText file :: w.log⟩) := by
  have hstep : (Keys.readText file).run (env.handler cluster) w =
      (Keys.raiseOS (env.handler cluster (.readText file) w).1).run (env.handler cluster)
        (env.handler cluster (.readText file) w).2 := rfl
  have hread : env.handler cluster (.readText file) w =
      (.ok text, ⟨w.files, w.authorized, .readText file :: w.log⟩) := by
    simp only [handler, act, hfault, hcontent]
  rw [hstep, hread]
  rfl

variable {hostname bootstrapKey user : String}

/-- An installation that succeeds leaves the key in the file. -/
theorem holdsKey_installKey (hkey : KeyLine key)
    (h : (installKey key hostname bootstrapKey path user).run (env.handler cluster) w =
      (.ok true, w')) :
    HoldsKey w'.authorized (cluster.store (user ++ "@" ++ hostname) path) key := by
  obtain ⟨checkResult, u, hcheck, hrest⟩ := Program.run_bind_eq_ok h
  split at hrest
  · next hfound =>
    cases hrest
    exact holdsKey_of_check hkey (run_subprocessRun_eq_ok hcheck) hfound.1 hfound.2
  · obtain ⟨result, u', happend, hrest⟩ := Program.run_bind_eq_ok hrest
    split at hrest
    · cases hrest
    · next hstatus =>
      cases hrest
      exact holdsKey_of_append hkey (run_subprocessRun_eq_ok happend) (not_not.mp hstatus)

/-- An installation that succeeds on a host that answers appends the key unless it is there. -/
theorem authorized_installKey (hkey : KeyLine key) (hcall : ∀ n, env.call n = .answered)
    (h : (installKey key hostname bootstrapKey path user).run (env.handler cluster) w =
      (.ok true, w')) :
    w'.authorized =
      if HoldsKey w.authorized (cluster.store (user ++ "@" ++ hostname) path) key then w.authorized
      else Function.update w.authorized (cluster.store (user ++ "@" ++ hostname) path)
        (some ((w.authorized (cluster.store (user ++ "@" ++ hostname) path)).getD "" ++ key ++
          "\n")) := by
  obtain ⟨checkResult, u, hcheck, hrest⟩ := Program.run_bind_eq_ok h
  have hanswer := run_subprocessRun_eq_ok hcheck
  simp only [runCall, hcall, runRemote_check hkey, Prod.mk.injEq, Except.ok.injEq] at hanswer
  obtain ⟨rfl, hu⟩ := hanswer
  by_cases hheld : HoldsKey w.authorized (cluster.store (user ++ "@" ++ hostname) path) key
  · rw [if_pos hheld, if_pos (by decide)] at hrest
    cases hrest
    rw [if_pos hheld, hu]
  · rw [if_neg hheld, if_neg (by decide)] at hrest
    obtain ⟨result, u', happend, hrest⟩ := Program.run_bind_eq_ok hrest
    split at hrest
    · cases hrest
    · next hstatus =>
      cases hrest
      have hremote := runRemote_of_runCall (run_subprocessRun_eq_ok happend) (not_not.mp hstatus)
      simp only [runRemote, ofText?_appendCommand hkey.2] at hremote
      split at hremote
      · obtain ⟨rfl, -⟩ := Prod.mk.inj hremote
        exact absurd (by decide) hstatus
      · rw [if_neg hheld, hu]
        exact (Prod.mk.inj hremote).2.symm

/-- Where the key is, a host that is reached is left as it is. -/
theorem run_installKey (hkey : KeyLine key) (hcall : env.call w.log.length = .answered)
    (hheld : HoldsKey w.authorized (cluster.store (user ++ "@" ++ hostname) path) key) :
    (installKey key hostname bootstrapKey path user).run (env.handler cluster) w =
      (.ok true, ⟨w.files, w.authorized,
        .run (keySshCmd bootstrapKey user hostname (checkCommand key path)) :: w.log⟩) := by
  have hrun : env.runCall cluster w.log.length (user ++ "@" ++ hostname) (checkCommand key path)
      w.authorized = (.ok ⟨0, "FOUND\n", ""⟩, w.authorized) := by
    simp only [runCall, hcall, runRemote_check hkey, if_pos hheld]
  have hanswer := run_subprocessRun cluster env bootstrapKey user hostname
    (checkCommand key path) w
  rw [hrun] at hanswer
  unfold installKey
  rw [Program.bind_eq, Program.run_bind_ok hanswer, if_pos (by decide)]
  rfl

end Calls

/-! ## Turns of the loop -/

section Turn

variable {w w' : KeyWorld F} {rule : Path.Pathlib} {keyFile : Path}
  {comment hostname bootstrapKey path user : String}

theorem run_generateKeypair (hthere : w.files.has (keyFile.locate cluster.cwd)) :
    (generateKeypair keyFile comment).run (env.handler cluster) w =
      (.ok true, ⟨w.files, w.authorized, .pathExists keyFile :: w.log⟩) := by
  unfold generateKeypair
  rw [Program.bind_eq, Program.run_bind_ok (run_pathExists keyFile w), hthere]
  rfl

omit [DecidableEq F] in
theorem has_runKeygen {n : Nat} {file : String} {t : KeyFiles} {r : CompletedProcess}
    (h : (env.runKeygen cluster n file t).1 = .ok r) (hr : r.returncode = 0) :
    (env.runKeygen cluster n file t).2.has ((Path.ofString file).locate cluster.cwd) := by
  unfold runKeygen at h ⊢
  cases hend : env.keygen n with
  | failed code nonzero stderr =>
    simp only [hend, Except.ok.injEq] at h
    rw [← h] at hr
    exact absurd hr nonzero
  | notStarted e => simp [hend] at h
  | generated privateKey publicKey =>
    simp only [hend] at h ⊢
    cases hu : t.create ((Path.ofString file).locate cluster.cwd) privateKey with
    | none =>
      simp only [hu, Except.ok.injEq] at h
      rw [← h] at hr
      cases hr
    | some u =>
      simp only [hu] at h ⊢
      cases hv : u.create ((Path.ofString (file ++ ".pub")).locate cluster.cwd) publicKey with
      | none =>
        simp only [hv, Except.ok.injEq] at h
        rw [← h] at hr
        cases hr
      | some v =>
        simp only [(FileTree.create_eq_some hv).2, (FileTree.create_eq_some hu).2]
        exact FileTree.has_set.mpr (.inr (FileTree.has_set.mpr (.inl rfl)))

theorem has_of_keygenCmd {r : CompletedProcess}
    (h : (Keys.subprocessRun (keygenCmd keyFile comment)).run (env.handler cluster) w =
      (.ok r, w')) (hr : r.returncode = 0) : w'.files.has (keyFile.locate cluster.cwd) := by
  obtain ⟨hresult, rfl⟩ := run_raiseOS_eq_ok h
  simp only [handler, act, keygenFile?_keygenCmd] at hresult ⊢
  simpa using has_runKeygen hresult hr

/-- A key pair that is reported is there. -/
theorem has_generateKeypair
    (h : (generateKeypair keyFile comment).run (env.handler cluster) w = (.ok true, w')) :
    w'.files.has (keyFile.locate cluster.cwd) := by
  by_cases hthere : w.files.has (keyFile.locate cluster.cwd)
  · rw [run_generateKeypair hthere] at h
    cases h
    exact hthere
  · unfold generateKeypair at h
    rw [Program.bind_eq, Program.run_bind_ok (run_pathExists keyFile w), if_neg hthere] at h
    obtain ⟨result, u, hrun, hrest⟩ := Program.run_bind_eq_ok h
    have hgrows := grows_of_run hrest
    split at hrest
    · cases hrest
    · next hstatus => exact hgrows.has _ (has_of_keygenCmd hrun (not_not.mp hstatus))

/-- A deployment reads the public key file, and does nothing more or installs what it read. -/
theorem run_deployPublicKey (rule : Path.Pathlib) (keyFile : Path)
    (hostname bootstrapKey path user : String) (w : KeyWorld F) :
    (∃ r u, (deployPublicKey rule keyFile hostname bootstrapKey path user).run
        (env.handler cluster) w = (r, u) ∧ r ≠ .ok true ∧
        u.files = w.files ∧ u.authorized = w.authorized ∧
        Since (fun o => ∀ cmd, o ≠ .run cmd) w u) ∨
      ∃ text u, w.files.content? ((publicKeyFile rule keyFile).locate cluster.cwd) = some text ∧
        (deployPublicKey rule keyFile hostname bootstrapKey path user).run (env.handler cluster) w =
          (installKey (strip text) hostname bootstrapKey path user).run (env.handler cluster) u ∧
        u.files = w.files ∧ u.authorized = w.authorized ∧
        Since (fun o => ∀ cmd, o ≠ .run cmd) w u := by
  unfold deployPublicKey
  rw [Program.bind_eq, Program.run_bind_ok (run_pathExists (publicKeyFile rule keyFile) w)]
  cases w.files.has ((publicKeyFile rule keyFile).locate cluster.cwd) with
  | false => exact .inl ⟨_, _, rfl, by simp, rfl, rfl, [_], rfl, by simp⟩
  | true =>
    rw [if_neg (by decide), Program.bind_eq]
    rcases run_readText cluster env (publicKeyFile rule keyFile) _ with
      ⟨e, hread⟩ | ⟨text, hcontent, hread⟩
    · rw [Program.run_bind_error hread]
      exact .inl ⟨_, _, rfl, by simp, rfl, rfl, [_, _], rfl, by simp⟩
    · rw [Program.run_bind_ok hread]
      exact .inr ⟨text, _, hcontent, rfl, rfl, rfl, [_, _], rfl, by simp⟩

variable {settings : KeySettings} {server : ServerConfig}

/-- A deployment that finds a text it can read installs it. -/
theorem run_deployPublicKey_of_content {text : String}
    (hfault : env.fault (.readText (publicKeyFile rule keyFile)) = none)
    (hcontent : w.files.content? ((publicKeyFile rule keyFile).locate cluster.cwd) = some text) :
    (deployPublicKey rule keyFile hostname bootstrapKey path user).run (env.handler cluster) w =
      (installKey (strip text) hostname bootstrapKey path user).run (env.handler cluster)
        ⟨w.files, w.authorized, .readText (publicKeyFile rule keyFile) ::
          .pathExists (publicKeyFile rule keyFile) :: w.log⟩ := by
  unfold deployPublicKey
  rw [Program.bind_eq, Program.run_bind_ok (run_pathExists (publicKeyFile rule keyFile) w),
    FileTree.has_of_content? hcontent, if_neg (by decide)]
  refine Program.run_bind_ok ?_ _
  exact run_readText_of_content hfault hcontent

theorem deployAndTest_reads :
    (deployAndTest rule settings server).Performs (E := KeySys) KeyOp.Reads :=
  deployAndTest_performs trivial trivial fun _ _ => keygenFile?_keySshCmd ..

/-- With its key pair there, a turn leaves the local files. -/
theorem files_setupServer (hthere : server.isLocal = false →
    w.files.has ((settings.keyFile server).locate cluster.cwd)) :
    ((setupServer rule settings server).run (env.handler cluster) w).2.files = w.files := by
  rw [setupServer_eq]
  split
  · rfl
  · next hremote =>
    rw [Program.run_bind_ok (run_generateKeypair (hthere (by simpa using hremote))), if_pos rfl]
    exact files_run deployAndTest_reads _

/-- A turn leaves a text that is not where it generates a key pair. -/
theorem content?_setupServer {loc : List Component} {text : String}
    (hpub : server.isLocal = false →
      (Path.ofString ((settings.keyFile server).str ++ ".pub")).locate cluster.cwd ≠ loc ∨
        w.files.has ((settings.keyFile server).locate cluster.cwd))
    (h : w.files.content? loc = some text) :
    ((setupServer rule settings server).run (env.handler cluster) w).2.files.content? loc =
      some text := by
  by_cases hthere : w.files.has ((settings.keyFile server).locate cluster.cwd)
  · rw [files_setupServer fun _ => hthere, h]
  · have hkey : (settings.keyFile server).locate cluster.cwd ≠ loc := by
      rintro rfl
      exact hthere (FileTree.has_of_content? h)
    rw [setupServer_eq]
    split
    · exact h
    · next hremote =>
      have hspares : (KeyOp.run (keygenCmd (settings.keyFile server)
          ("proxmox-pbs-backup-pull-" ++ server.name))).Spares cluster.cwd loc := by
        intro file hfile
        rw [keygenFile?_keygenCmd] at hfile
        cases hfile
        rw [Path.ofString_str]
        exact ⟨hkey, (hpub (by simpa using hremote)).resolve_right hthere⟩
      refine content?_run (Program.Performs.bind (generateKeypair_performs trivial hspares trivial)
        fun generated => ?_) h
      cases generated with
      | false => trivial
      | true => exact deployAndTest_reads.mono fun o ho => ho.spares cluster.cwd loc

/-- What a turn leaves that succeeds. -/
theorem deployed_of_setupServer (hremote : server.isLocal = false)
    (h : (setupServer rule settings server).run (env.handler cluster) w = (.ok true, w')) :
    w'.files.has ((settings.keyFile server).locate cluster.cwd) ∧
      ∃ text, w'.files.content? ((publicKeyFile rule (settings.keyFile server)).locate
        cluster.cwd) = some text ∧ (KeyLine (strip text) → HoldsKey w'.authorized
          (cluster.store ("root@" ++ server.hostname) settings.authorizedKeysPath)
          (strip text)) := by
  rw [setupServer_eq, if_neg (by simp [hremote])] at h
  obtain ⟨generated, u, hgenerate, hrest⟩ := Program.run_bind_eq_ok h
  cases generated with
  | false => cases hrest
  | true =>
    rw [if_pos rfl] at hrest
    have hfiles : ((deployAndTest rule settings server).run (env.handler cluster) u).2.files =
        u.files := files_run deployAndTest_reads u
    rw [hrest] at hfiles
    refine ⟨(grows_of_run hrest).has _ (has_generateKeypair hgenerate), ?_⟩
    obtain ⟨deployed, v, hdeploy, htest⟩ := Program.run_bind_eq_ok hrest
    cases deployed with
    | false => cases htest
    | true =>
      rcases run_deployPublicKey rule (settings.keyFile server) server.hostname
        settings.bootstrapKey settings.authorizedKeysPath "root" u with
        ⟨r, x, hrun, hr, -⟩ | ⟨text, x, hcontent, hrun, -⟩
      · rw [hrun] at hdeploy
        exact absurd (Prod.mk.inj hdeploy).1 hr
      · rw [hrun] at hdeploy
        refine ⟨text, by rw [hfiles, hcontent], fun hkey => ?_⟩
        exact (grows_of_run htest).holdsKey _ _ hkey.1 (holdsKey_installKey hkey hdeploy)

/-- A deployment whose key is there already leaves the hosts that it reaches. -/
theorem authorized_deployPublicKey (hcall : ∀ n, env.call n = .answered)
    (hheld : ∀ text, w.files.content? ((publicKeyFile rule keyFile).locate cluster.cwd) =
      some text → KeyLine (strip text) ∧
        HoldsKey w.authorized (cluster.store (user ++ "@" ++ hostname) path) (strip text)) :
    ((deployPublicKey rule keyFile hostname bootstrapKey path user).run
      (env.handler cluster) w).2.authorized = w.authorized := by
  rcases run_deployPublicKey rule keyFile hostname bootstrapKey path user w with
    ⟨r, u, hrun, -, -, hauthorized, -⟩ | ⟨text, u, hcontent, hrun, -, hauthorized, -⟩
  · rw [hrun, hauthorized]
  · obtain ⟨hkey, hholds⟩ := hheld text hcontent
    rw [hrun, run_installKey hkey (hcall _) (hauthorized ▸ hholds), hauthorized]

theorem authorized_testKey (keyFile : Path) (hostname user : String) (w : KeyWorld F) :
    ((testKey keyFile hostname user).run (env.handler cluster) w).2.authorized =
      w.authorized := by
  refine authorized_run (testKey_performs fun key file h => ?_) w
  have hnone : RemoteCommand.ofText? "hostname" = none := rfl
  rw [text_keySshCmd, hnone] at h
  cases h

theorem authorized_deployAndTest (hcall : ∀ n, env.call n = .answered)
    (hheld : ∀ text, w.files.content? ((publicKeyFile rule (settings.keyFile server)).locate
      cluster.cwd) = some text → KeyLine (strip text) ∧ HoldsKey w.authorized
        (cluster.store ("root@" ++ server.hostname) settings.authorizedKeysPath) (strip text)) :
    ((deployAndTest rule settings server).run (env.handler cluster) w).2.authorized =
      w.authorized := by
  have hdeploy : ((deployPublicKey rule (settings.keyFile server) server.hostname
      settings.bootstrapKey settings.authorizedKeysPath).run (env.handler cluster) w).2.authorized =
        w.authorized :=
    authorized_deployPublicKey hcall hheld
  unfold deployAndTest
  rw [Program.bind_eq, Program.run_bind]
  split
  · next deployed u hrun =>
    rw [hrun] at hdeploy
    cases deployed with
    | false => exact hdeploy
    | true => exact (authorized_testKey _ _ _ u).trans hdeploy
  · next e u hrun =>
    rw [hrun] at hdeploy
    exact hdeploy

/-- With its key pair there and its key on the host, a turn that reaches the host leaves the
hosts. -/
theorem authorized_setupServer (hcall : ∀ n, env.call n = .answered)
    (hthere : server.isLocal = false → w.files.has ((settings.keyFile server).locate cluster.cwd))
    (hheld : server.isLocal = false → ∀ text,
      w.files.content? ((publicKeyFile rule (settings.keyFile server)).locate cluster.cwd) =
        some text → KeyLine (strip text) ∧ HoldsKey w.authorized
          (cluster.store ("root@" ++ server.hostname) settings.authorizedKeysPath) (strip text)) :
    ((setupServer rule settings server).run (env.handler cluster) w).2.authorized =
      w.authorized := by
  rw [setupServer_eq]
  split
  · rfl
  · next hremote =>
    have hlocal : server.isLocal = false := by simpa using hremote
    rw [Program.run_bind_ok (run_generateKeypair (hthere hlocal)), if_pos rfl]
    exact authorized_deployAndTest hcall (hheld hlocal)

end Turn

end KeyEnv

end SrvBackup.Adapters
