import SrvBackup.Specification.Keys

/-!
# What a deployment leaves in `authorized_keys`

`grep -qF` finds a key anywhere in a line, also in a comment; `echo >>` continues the last line of
the file where that has no end. So a deployment that reports success leaves a working key, and the
lines that were there, exactly in the files that `Deployable` describes.
-/
namespace SrvBackup.Specification

open SrvBackup.Domain SrvBackup.Effects SrvBackup.Storage SrvBackup.Text SrvBackup.Adapters

/-! ## Lines of the file -/

/-- The lines that have an end. -/
def endedLines (content : String) : List (List Char) := (content.toList.splitOn '\n').dropLast

/-- What follows the last end of a line. -/
def openLine (content : String) : List Char := (content.toList.splitOn '\n').getLastD []

def fileLines (content : String) : List (List Char) :=
  if openLine content = [] then endedLines content
  else endedLines content ++ [openLine content]

def isBlank (c : Char) : Bool := c = ' ' || c = '\t'

/-- Key options: no blank outside double quotes, where `\"` is no quote. -/
def areOptions (inQuotes : Bool) : List Char → Bool
  | [] => !inQuotes
  | '\\' :: '"' :: cs => areOptions inQuotes cs
  | c :: cs => if c = '"' then areOptions (!inQuotes) cs
    else (inQuotes || !isBlank c) && areOptions inQuotes cs

/-- What may stand before the key in its line: nothing, or options and blanks. -/
def IsFront (front : List Char) : Prop :=
  front = [] ∨ (front.rdropWhile isBlank ≠ [] ∧ front.rdropWhile isBlank ≠ front ∧
    areOptions false (front.rdropWhile isBlank))

instance (front : List Char) : Decidable (IsFront front) := by unfold IsFront; infer_instance

/-- The line lets the key in. -/
def ActiveEntry (key : String) (line : List Char) : Prop :=
  line.head? ≠ some '#' ∧ ∃ front, front ++ key.toList = line ∧ IsFront front

/-- Some line lets the key in, and the lines that were there still are. -/
structure KeyInstalled (key before after : String) : Prop where
  active : ∃ line ∈ fileLines after, ActiveEntry key line
  kept : ∀ line ∈ fileLines before, line ∈ fileLines after

theorem activeEntry_iff (key : String) (line : List Char) :
    ActiveEntry key line ↔ line.head? ≠ some '#' ∧
      line.take (line.length - key.toList.length) ++ key.toList = line ∧
        IsFront (line.take (line.length - key.toList.length)) := by
  refine and_congr_right fun _ => ⟨?_, fun h => ⟨_, h⟩⟩
  rintro ⟨front, rfl, hfront⟩
  simpa using hfront

instance (key : String) (line : List Char) : Decidable (ActiveEntry key line) :=
  decidable_of_iff _ (activeEntry_iff key line).symm

instance (key before after : String) : Decidable (KeyInstalled key before after) :=
  decidable_of_iff ((∃ line ∈ fileLines after, ActiveEntry key line) ∧
    ∀ line ∈ fileLines before, line ∈ fileLines after)
    ⟨fun h => ⟨h.1, h.2⟩, fun h => ⟨h.1, h.2⟩⟩

/-- A key that occurs in the file is an active entry of it already; one that does not becomes an
entry in the place where `echo` writes it, and takes no line away. -/
def Deployable (key content : String) : Prop :=
  if HasKey key content then ∃ line ∈ fileLines content, ActiveEntry key line
  else ActiveEntry key (openLine content ++ key.toList) ∧
    (openLine content = [] ∨ openLine content ∈ endedLines content)

instance (key content : String) : Decidable (Deployable key content) := by
  unfold Deployable; infer_instance

section Lines

variable {key content : String} {line : List Char}

theorem mem_fileLines :
    line ∈ fileLines content ↔
      line ∈ endedLines content ∨ (openLine content ≠ [] ∧ line = openLine content) := by
  unfold fileLines
  split <;> simp_all

theorem splitOn_eq_lines (content : String) :
    content.toList.splitOn '\n' = endedLines content ++ [openLine content] :=
  splitOn_eq_dropLast_append content.toList

theorem fileLines_append_key (hkey : '\n' ∉ key.toList) (content : String) :
    fileLines (content ++ key ++ "\n") =
      endedLines content ++ [openLine content ++ key.toList] := by
  have hsplit : (content ++ key ++ "\n").toList.splitOn '\n' =
      endedLines content ++ [openLine content ++ key.toList] ++ [[]] := by
    rw [String.toList_append, String.toList_append]
    change (content.toList ++ key.toList ++ '\n' :: []).splitOn '\n' = _
    rw [List.splitOn_append_cons_self, splitOn_append_of_notMem hkey, List.splitOn_nil]
    rfl
  unfold fileLines openLine endedLines
  rw [hsplit]
  simp only [List.getLastD_concat, if_pos, List.dropLast_concat]
  rfl

/-- An active entry has the key in it. -/
theorem ActiveEntry.infix (h : ActiveEntry key line) : key.toList <:+: line := by
  obtain ⟨-, front, rfl, -⟩ := h
  exact (List.suffix_append _ _).isInfix

theorem hasKey_of_activeEntry (hline : line ∈ endedLines content) (h : ActiveEntry key line) :
    HasKey key content := by
  refine ⟨line, ?_, h.infix⟩
  rw [splitOn_eq_lines]
  exact List.mem_append_left _ hline

/-- Where the key is not there, appending it installs it exactly in a deployable file. -/
theorem keyInstalled_append_iff (hkey : '\n' ∉ key.toList) (hne : key ≠ "")
    (hmissing : ¬ HasKey key content) :
    KeyInstalled key content (content ++ key ++ "\n") ↔
      ActiveEntry key (openLine content ++ key.toList) ∧
        (openLine content = [] ∨ openLine content ∈ endedLines content) := by
  have hlines := fileLines_append_key hkey content
  have hlonger : openLine content ≠ openLine content ++ key.toList := by
    intro h
    exact hne (String.toList_eq_nil_iff.mp (List.self_eq_append_right.mp h))
  constructor
  · rintro ⟨⟨line, hline, hactive⟩, hkept⟩
    rw [hlines] at hline
    refine ⟨?_, ?_⟩
    · rcases List.mem_append.mp hline with hold | hnew
      · exact absurd (hasKey_of_activeEntry hold hactive) hmissing
      · rwa [List.mem_singleton.mp hnew] at hactive
    · by_contra! hopen
      have hmem := hkept _ (mem_fileLines.mpr (.inr ⟨hopen.1, rfl⟩))
      rw [hlines] at hmem
      rcases List.mem_append.mp hmem with hold | hnew
      · exact hopen.2 hold
      · exact hlonger (List.mem_singleton.mp hnew)
  · rintro ⟨hactive, hopen⟩
    refine ⟨⟨_, by simp [hlines], hactive⟩, fun line hline => ?_⟩
    rw [hlines]
    rcases mem_fileLines.mp hline with hold | ⟨hne, rfl⟩
    · exact List.mem_append_left _ hold
    · exact List.mem_append_left _ (hopen.resolve_left hne)

theorem keyInstalled_self_iff :
    KeyInstalled key content content ↔ ∃ line ∈ fileLines content, ActiveEntry key line :=
  ⟨fun h => h.active, fun h => ⟨h, fun _ hline => hline⟩⟩

end Lines

/-! ## The deployment -/

section Deployment

variable {F : Type} [DecidableEq F] {cluster : Cluster F} {env : KeyEnv F} {w w' : KeyWorld F}
  {rule : Path.Pathlib} {keyFile : Path} {hostname bootstrapKey path user text : String}

omit [DecidableEq F] in
theorem holdsKey_iff_hasKey {authorized : F → Option String} {f : F} {key : String}
    (hkey : '\n' ∉ key.toList) (hne : key ≠ "") :
    HoldsKey authorized f key ↔ HasKey key ((authorized f).getD "") := by
  cases hf : authorized f with
  | some content => simp [HoldsKey, hf]
  | none => simp [HoldsKey, hf, hasKey_iff hkey, hne]

/-- A deployment to a host that answers installs the key it reports exactly in a deployable
file. -/
theorem keyInstalled_iff (hcall : ∀ n, env.call n = .answered)
    (hcontent : w.files.content? ((publicKeyFile rule keyFile).locate cluster.cwd) = some text)
    (hkey : KeyLine (strip text)) (hne : strip text ≠ "")
    (h : (deployPublicKey rule keyFile hostname bootstrapKey path user).run (env.handler cluster)
      w = (.ok true, w')) :
    KeyInstalled (strip text)
        ((w.authorized (cluster.store (user ++ "@" ++ hostname) path)).getD "")
        ((w'.authorized (cluster.store (user ++ "@" ++ hostname) path)).getD "") ↔
      Deployable (strip text)
        ((w.authorized (cluster.store (user ++ "@" ++ hostname) path)).getD "") := by
  obtain ⟨r, u, hrun, hr, -⟩ | ⟨text', u, hcontent', hrun, -, hauthorized, -⟩ :=
    @KeyEnv.run_deployPublicKey F _ cluster env rule keyFile hostname bootstrapKey path user w
  · rw [hrun] at h
    exact absurd (Prod.mk.inj h).1 hr
  · obtain rfl : text' = text := Option.some.inj (hcontent'.symm.trans hcontent)
    rw [hrun] at h
    have hafter := KeyEnv.authorized_installKey hkey hcall h
    rw [hauthorized] at hafter
    rw [hafter]
    by_cases hheld : HoldsKey w.authorized (cluster.store (user ++ "@" ++ hostname) path)
      (strip text')
    · rw [if_pos hheld, keyInstalled_self_iff, Deployable,
        if_pos ((holdsKey_iff_hasKey hkey.1 hne).mp hheld)]
    · have hmissing := (holdsKey_iff_hasKey hkey.1 hne).not.mp hheld
      rw [if_neg hheld, Function.update_self, Option.getD_some,
        keyInstalled_append_iff hkey.1 hne hmissing, Deployable, if_neg hmissing]

/-- The file `authorized_keys` with the text `content`, and the key `t K` to deploy. -/
def sampleDeployment (content : String) : KeyWorld (String × String) :=
  ⟨(∅ : KeyFiles).set (components "/k/b.pub") (.file "t K\n"), fun _ => some content, []⟩

/-- The run that deploys the key. -/
def deploySample (content : String) : Except Error Bool × KeyWorld (String × String) :=
  (deployPublicKey .upTo313 (Path.ofString "/k/b") "h" "/k/boot" "keys").run
    ((quietEnv _).handler sampleCluster) (sampleDeployment content)

def deployedContent (content : String) : String :=
  ((deploySample content).2.authorized ("root@h", "keys")).getD ""

theorem keyInstalled_sample : KeyInstalled "t K" "#a\nt A\n" (deployedContent "#a\nt A\n") := by
  have hcontent : (sampleDeployment "#a\nt A\n").files.content?
      ((publicKeyFile .upTo313 (Path.ofString "/k/b")).locate sampleCluster.cwd) =
        some "t K\n" := by
    decide +kernel
  have hstrip : strip "t K\n" = "t K" := by decide +kernel
  have hrun : (deploySample "#a\nt A\n").1 = .ok true := by rfl
  have hiff := keyInstalled_iff (fun _ => rfl) hcontent (by decide +kernel) (by simp [hstrip])
    (Prod.ext hrun rfl)
  rw [hstrip] at hiff
  refine hiff.mpr ?_
  decide +kernel

/-- The key is written behind another one, or taken to be in use where it is commented out. -/
theorem deployment_locks_out :
    ((deploySample "a A x").1 = .ok true ∧ deployedContent "a A x" = "a A xt K\n" ∧
      ¬ KeyInstalled "t K" "a A x" (deployedContent "a A x")) ∧
    ((deploySample "#t K\n").1 = .ok true ∧ deployedContent "#t K\n" = "#t K\n" ∧
      ¬ KeyInstalled "t K" "#t K\n" (deployedContent "#t K\n")) :=
  ⟨⟨rfl, by decide +kernel, by decide +kernel⟩, ⟨rfl, by decide +kernel, by decide +kernel⟩⟩

end Deployment

end SrvBackup.Specification
