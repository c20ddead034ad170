import SrvBackup.Adapters.ConfigBackup
import SrvBackup.Text.Shell

/-!
# The tar command as the shell reads it

`buildTarCommand` puts paths and patterns into the command as they are. The shell reads each of
them as one word exactly if none has a character that means something to it.
-/
namespace SrvBackup.Specification

open SrvBackup.Adapters SrvBackup.Text

/-- The command and its options. -/
def tarWords : List String :=
  ["tar", "--hard-dereference", "--ignore-failed-read", "-czf", "-"]

/-- What the configuration means. -/
def configuredTar (configPaths excludePatterns : List String) : Shell.Command :=
  ⟨tarWords ++ excludePatterns.map ("--exclude=" ++ ·) ++ configPaths, [("2", "/dev/null")]⟩

section Reading

variable {configPaths excludePatterns : List String}

theorem toList_tar : "tar --hard-dereference --ignore-failed-read -czf - ".toList =
    [' '].intercalate (tarWords.map String.toList) ++ [' '] := by decide +kernel

/-- The parts of the command, with a blank after each. -/
theorem toList_buildTarCommand (configPaths excludePatterns : List String) :
    (buildTarCommand configPaths excludePatterns).toList =
      [' '].intercalate (tarWords.map String.toList) ++ ' ' ::
        ([' '].intercalate ((excludePatterns.map ("--exclude=" ++ ·)).map String.toList) ++ ' ' ::
          ([' '].intercalate (configPaths.map String.toList) ++ ' ' :: "2>/dev/null".toList)) := by
  have hnull : " 2>/dev/null".toList = ' ' :: "2>/dev/null".toList := rfl
  have hblank : " ".toList = [' '] := rfl
  unfold buildTarCommand
  rw [String.toList_append, String.toList_append, String.toList_append, String.toList_append,
    toList_tar, hnull, hblank, String.toList_intercalate, String.toList_intercalate, hblank]
  generalize [' '].intercalate (tarWords.map String.toList) = tar
  simp only [List.append_assoc, List.cons_append, List.nil_append]

theorem bare_exclude {p : String} (hp : ∀ c ∈ p.toList, Shell.isOrdinary c) :
    Shell.Bare ("--exclude=" ++ p).toList where
  ne_nil := by simp
  ordinary c hc := by
    rw [String.toList_append] at hc
    rcases List.mem_append.mp hc with hc | hc
    · exact (by decide : ∀ c ∈ "--exclude=".toList, Shell.isOrdinary c) c hc
    · exact hp c hc
  noComment := by simp

/-- Words that mean nothing else to the shell are read as they are. -/
theorem read?_buildTarCommand
    (hexcludes : ∀ p ∈ excludePatterns, ∀ c ∈ p.toList, Shell.isOrdinary c)
    (hpaths : ∀ p ∈ configPaths, Shell.Bare p.toList) :
    Shell.read? (buildTarCommand configPaths excludePatterns) =
      some (configuredTar configPaths excludePatterns) := by
  have htar : ∀ w ∈ tarWords.map String.toList, Shell.Bare w := by decide
  have hexclude : ∀ w ∈ (excludePatterns.map ("--exclude=" ++ ·)).map String.toList,
      Shell.Bare w := by
    intro w hw
    obtain ⟨_, hv, rfl⟩ := List.mem_map.mp hw
    obtain ⟨p, hp, rfl⟩ := List.mem_map.mp hv
    exact bare_exclude (hexcludes p hp)
  have hpath : ∀ w ∈ configPaths.map String.toList, Shell.Bare w := by
    intro w hw
    obtain ⟨p, hp, rfl⟩ := List.mem_map.mp hw
    exact hpaths p hp
  have hend : Shell.Reader.start.tokens "2>/dev/null".toList =
      some [.redirect ['2'], .word "/dev/null".toList] := by decide
  rw [Shell.read?, toList_buildTarCommand, Shell.Reader.tokens_intercalate htar,
    Shell.Reader.tokens_intercalate hexclude, Shell.Reader.tokens_intercalate hpath, hend]
  simp only [Option.map_some, Option.bind_some, Shell.command?_words, Shell.command?,
    List.append_nil]
  rfl

/-- Every quote of the command stands in a path or a pattern. -/
theorem count_buildTarCommand {q : Char} (hq : Shell.IsQuote q) :
    (buildTarCommand configPaths excludePatterns).toList.count q =
      (configuredTar configPaths excludePatterns).letters q := by
  have hfixed : ∀ s : String, (∀ c ∈ s.toList, Shell.isOrdinary c) → s.toList.count q = 0 := by
    intro s hs
    refine List.count_eq_zero.mpr fun hmem => ?_
    have hordinary := hs q hmem
    rcases hq with rfl | rfl | rfl <;> exact absurd hordinary (by decide)
  have hblank : [' '].count q = 0 := by rcases hq with rfl | rfl | rfl <;> decide
  have hjoin : ∀ ws : List String,
      ([' '].intercalate (ws.map String.toList)).count q = (ws.map (·.toList.count q)).sum := by
    intro ws
    induction ws with
    | nil => rfl
    | cons w ws ih =>
      cases ws with
      | nil => simp
      | cons v ws =>
        rw [List.map_cons, List.map_cons, List.intercalate_cons_cons, ← List.map_cons,
          List.count_append, List.count_append, ih, hblank]
        simp
  have hnull : "2>/dev/null".toList.count q = 0 := by
    rcases hq with rfl | rfl | rfl <;> decide
  rw [toList_buildTarCommand]
  simp only [List.count_append, List.count_cons, hjoin, hnull] at hblank ⊢
  simp only [Shell.Command.letters, configuredTar, List.map_append, List.sum_append, List.map_cons,
    List.map_nil, List.sum_cons, List.sum_nil, hfixed "/dev/null" (by decide),
    hfixed "2" (by decide)]
  omega

/-- The shell reads the command as the configuration means it exactly if no path and no pattern
has a character that means something to it, and no path is empty or begins a comment. -/
theorem read_as_configured_iff (configPaths excludePatterns : List String) :
    Shell.read? (buildTarCommand configPaths excludePatterns) =
        some (configuredTar configPaths excludePatterns) ↔
      (∀ p ∈ excludePatterns, ∀ c ∈ p.toList, Shell.isOrdinary c) ∧
        ∀ p ∈ configPaths, Shell.Bare p.toList := by
  refine ⟨fun h => ?_, fun h => read?_buildTarCommand h.1 h.2⟩
  have hbare := Shell.bare_of_read? h fun q hq => (count_buildTarCommand hq).le
  refine ⟨fun p hp c hc => ?_, fun p hp => hbare p (by simp [configuredTar, hp])⟩
  refine (hbare ("--exclude=" ++ p) (by simp [configuredTar, hp])).ordinary c ?_
  rw [String.toList_append]
  exact List.mem_append_right _ hc

end Reading

/-- A path with a blank is two operands. -/
theorem path_with_blank_is_split :
    Shell.read? (buildTarCommand ["/etc/my dir"] []) =
        some ⟨tarWords ++ ["/etc/my", "dir"], [("2", "/dev/null")]⟩ ∧
      Shell.read? (buildTarCommand ["/etc/my dir"] []) ≠
        some (configuredTar ["/etc/my dir"] []) := by
  have hread : Shell.read? (buildTarCommand ["/etc/my dir"] []) =
      some ⟨tarWords ++ ["/etc/my", "dir"], [("2", "/dev/null")]⟩ := by decide +kernel
  rw [hread]
  exact ⟨rfl, by decide⟩

end SrvBackup.Specification
