import Mathlib.Data.List.AList
import Mathlib.Data.List.Infix
import Mathlib.Tactic.Common

/-!
# File trees

A file tree maps locations (lists of names, from the root) to directories and files. The root
always exists. Symbolic links, permissions and sizes are not part of it.

The primitive updates are `set` and `remove`; `mkdirs` and `create` are what `mkdir -p` and
opening a file for writing do with them. Every update has one lemma for `get?`, one for
`content?` and one for `restrict`, the part of a tree below a chosen set of locations.
-/
namespace SrvBackup.Storage

inductive Entry (β : Type) where
  | dir
  | file (content : β)
  deriving DecidableEq, Repr

@[simp] def Entry.content? {β : Type} : Entry β → Option β
  | .dir => none
  | .file c => some c

/-- Distinct locations with their entries; the order is the order of a directory listing. -/
abbrev FileTree (ν β : Type) [DecidableEq ν] := AList fun _ : List ν => Entry β

namespace FileTree

variable {ν β : Type} [DecidableEq ν]

def get? (t : FileTree ν β) (p : List ν) : Option (Entry β) := t.lookup p

def set (t : FileTree ν β) (p : List ν) (e : Entry β) : FileTree ν β := t.insert p e

def remove (t : FileTree ν β) (p : List ν) : FileTree ν β := t.erase p

/-- The content of the regular file at `p`, if there is one. -/
def content? (t : FileTree ν β) (p : List ν) : Option β := (t.get? p).bind Entry.content?

def isDir (t : FileTree ν β) (p : List ν) : Bool :=
  p.isEmpty || match t.get? p with
    | some .dir => true
    | _ => false

/-- Something is at `p`. -/
def has (t : FileTree ν β) (p : List ν) : Bool := p.isEmpty || (t.get? p).isSome

theorem get?_set (t : FileTree ν β) (p q : List ν) (e : Entry β) :
    (t.set p e).get? q = if q = p then some e else t.get? q := by
  split
  · subst q; exact AList.lookup_insert t
  · exact AList.lookup_insert_ne ‹_›

theorem get?_remove (t : FileTree ν β) (p q : List ν) :
    (t.remove p).get? q = if q = p then none else t.get? q := by
  split
  · subst q; exact AList.lookup_erase p t
  · exact AList.lookup_erase_ne ‹_›

theorem content?_set (t : FileTree ν β) (p q : List ν) (e : Entry β) :
    (t.set p e).content? q = if q = p then e.content? else t.content? q := by
  unfold content?
  rw [get?_set]
  split <;> rfl

theorem content?_remove (t : FileTree ν β) (p q : List ν) :
    (t.remove p).content? q = if q = p then none else t.content? q := by
  unfold content?
  rw [get?_remove]
  split <;> rfl

theorem content?_eq_some {t : FileTree ν β} {p : List ν} {c : β} :
    t.content? p = some c ↔ t.get? p = some (.file c) := by
  unfold content?
  rcases t.get? p with _ | (_ | _) <;> simp

theorem isDir_iff {t : FileTree ν β} {p : List ν} :
    t.isDir p ↔ p = [] ∨ t.get? p = some .dir := by
  unfold isDir
  rcases t.get? p with _ | (_ | _) <;> simp

theorem has_of_get? {t : FileTree ν β} {p : List ν} {e : Entry β} (h : t.get? p = some e) :
    t.has p := by
  simp [has, h]

theorem has_of_content? {t : FileTree ν β} {p : List ν} {c : β} (h : t.content? p = some c) :
    t.has p :=
  has_of_get? (content?_eq_some.mp h)

theorem has_set {t : FileTree ν β} {p : List ν} {e : Entry β} {q : List ν} :
    (t.set p e).has q ↔ q = p ∨ t.has q := by
  by_cases hq : q = p <;> simp [has, get?_set, hq]

/-! ## Making directories -/

/-- `mkdir` of one directory whose existence is no error. -/
def ensureDir (t : FileTree ν β) (p : List ν) : Option (FileTree ν β) :=
  match t.get? p with
  | none => some (t.set p .dir)
  | some .dir => some t
  | some (.file _) => none

/-- The location and its ancestors below the root, outermost first. -/
def lineage (p : List ν) : List (List ν) := p.inits.tail

/-- `mkdir(parents=True, exist_ok=True)`: fails when a file is in the way. -/
def mkdirs (t : FileTree ν β) (p : List ν) : Option (FileTree ν β) :=
  (lineage p).foldlM ensureDir t

omit [DecidableEq ν] in
theorem mem_lineage {p q : List ν} : q ∈ lineage p ↔ q ≠ [] ∧ q <+: p := by
  cases p with
  | nil => simp [lineage]
  | cons x xs =>
    simp only [lineage, List.inits_cons, List.tail_cons, List.mem_map, List.mem_inits]
    constructor
    · rintro ⟨r, hr, rfl⟩
      exact ⟨by simp, by simpa using hr⟩
    · rintro ⟨hne, hq⟩
      obtain ⟨y, ys, rfl⟩ := List.exists_cons_of_ne_nil hne
      obtain ⟨rfl, hys⟩ := List.cons_prefix_cons.mp hq
      exact ⟨ys, hys, rfl⟩

theorem ensureDir_eq_some {t t' : FileTree ν β} {p : List ν} (h : t.ensureDir p = some t') :
    t.content? p = none ∧ ∀ q, t'.get? q = if q = p then some .dir else t.get? q := by
  unfold ensureDir at h
  cases hp : t.get? p with
  | none =>
    rw [hp] at h
    cases h
    exact ⟨by simp [content?, hp], fun q => get?_set t p q .dir⟩
  | some e =>
    rw [hp] at h
    cases e with
    | file c => cases h
    | dir =>
      cases h
      refine ⟨by simp [content?, hp], fun q => ?_⟩
      split
      · subst q; exact hp
      · rfl

theorem foldlM_ensureDir_eq_some {ps : List (List ν)} {t t' : FileTree ν β}
    (h : ps.foldlM ensureDir t = some t') :
    (∀ p ∈ ps, t.content? p = none) ∧
      ∀ q, t'.get? q = if q ∈ ps then some .dir else t.get? q := by
  induction ps generalizing t with
  | nil => cases h; simp
  | cons p ps ih =>
    obtain ⟨u, hu, hrest⟩ := Option.bind_eq_some_iff.mp h
    obtain ⟨hp, hget⟩ := ensureDir_eq_some hu
    obtain ⟨hfree, hget'⟩ := ih hrest
    constructor
    · intro q hq
      rcases List.mem_cons.mp hq with rfl | hq
      · exact hp
      · by_cases hqp : q = p
        · exact hqp ▸ hp
        · simpa [content?, hget, hqp] using hfree q hq
    · intro q
      rw [hget', hget]
      by_cases hq : q ∈ ps <;> by_cases hqp : q = p <;> simp [hq, hqp]

theorem get?_mkdirs {t t' : FileTree ν β} {p : List ν} (h : t.mkdirs p = some t') (q : List ν) :
    t'.get? q = if q ∈ lineage p then some .dir else t.get? q :=
  (foldlM_ensureDir_eq_some h).2 q

/-- Making directories leaves every file as it is. -/
theorem content?_mkdirs {t t' : FileTree ν β} {p : List ν} (h : t.mkdirs p = some t')
    (q : List ν) : t'.content? q = t.content? q := by
  by_cases hq : q ∈ lineage p
  · rw [(foldlM_ensureDir_eq_some h).1 q hq]
    simp [content?, get?_mkdirs h, hq]
  · simp [content?, get?_mkdirs h, hq]

theorem exists_foldlM_ensureDir {ps : List (List ν)} {t : FileTree ν β}
    (h : ∀ p ∈ ps, t.content? p = none) : ∃ u, ps.foldlM ensureDir t = some u := by
  induction ps generalizing t with
  | nil => exact ⟨t, rfl⟩
  | cons p ps ih =>
    obtain ⟨u, hu⟩ : ∃ u, t.ensureDir p = some u := by
      have hp := h p (by simp)
      unfold ensureDir
      rcases hget : t.get? p with _ | (_ | c)
      · exact ⟨_, rfl⟩
      · exact ⟨_, rfl⟩
      · simp [content?, hget] at hp
    have hrest : ∀ q ∈ ps, u.content? q = none := by
      intro q hq
      have hq' := h q (by simp [hq])
      by_cases hqp : q = p
      · simp [content?, (ensureDir_eq_some hu).2, hqp]
      · simpa [content?, (ensureDir_eq_some hu).2, hqp] using hq'
    obtain ⟨v, hv⟩ := ih hrest
    exact ⟨v, by simp [List.foldlM_cons, hu, hv]⟩

/-- Directories can be made where no file is in the way. -/
theorem exists_mkdirs {t : FileTree ν β} {p : List ν} (h : ∀ q ∈ lineage p, t.content? q = none) :
    ∃ u, t.mkdirs p = some u :=
  exists_foldlM_ensureDir h

/-- Making directories leaves what is there. -/
theorem get?_mkdirs_of_some {t u : FileTree ν β} {p q : List ν} {e : Entry β}
    (h : t.mkdirs p = some u) (hq : t.get? q = some e) : u.get? q = some e := by
  rw [get?_mkdirs h]
  split
  · next hmem =>
    have hfree := (foldlM_ensureDir_eq_some h).1 q hmem
    cases e with
    | dir => rfl
    | file c => rw [content?_eq_some.mpr hq] at hfree; cases hfree
  · exact hq

/-- Directories that are there are not made again. -/
theorem mkdirs_of_isDir {t : FileTree ν β} {p : List ν} (h : ∀ q ∈ lineage p, t.isDir q) :
    t.mkdirs p = some t := by
  have hfold : ∀ qs : List (List ν), (∀ q ∈ qs, q ≠ [] ∧ t.isDir q) →
      qs.foldlM ensureDir t = some t := by
    intro qs hqs
    induction qs with
    | nil => rfl
    | cons q qs ih =>
      obtain ⟨hne, hdir⟩ := hqs q (by simp)
      have hget := (isDir_iff.mp hdir).resolve_left hne
      simp [List.foldlM_cons, ensureDir, hget, ih fun r hr => hqs r (by simp [hr])]
  exact hfold _ fun q hq => ⟨(mem_lineage.mp hq).1, h q hq⟩

theorem isDir_of_mem_lineage {t u : FileTree ν β} {p q : List ν} (h : t.mkdirs p = some u)
    (hq : q ∈ lineage p) : u.isDir q := by
  simp [isDir_iff, get?_mkdirs h, hq]

theorem isDir_mkdirs {t u : FileTree ν β} {p : List ν} (h : t.mkdirs p = some u) : u.isDir p := by
  by_cases hp : p = []
  · simp [hp, isDir]
  · exact isDir_of_mem_lineage h (mem_lineage.mpr ⟨hp, List.prefix_refl p⟩)

/-! ## Opening for writing -/

/-- `open(p, "wb")`: the file is created or truncated; the directory must be there. -/
def create (t : FileTree ν β) (p : List ν) (c : β) : Option (FileTree ν β) :=
  if t.isDir p || !t.isDir p.dropLast then none else some (t.set p (.file c))

theorem create_eq_some {t t' : FileTree ν β} {p : List ν} {c : β}
    (h : t.create p c = some t') : t.isDir p.dropLast ∧ t' = t.set p (.file c) := by
  unfold create at h
  split at h
  · cases h
  · next hfree =>
    simp only [Bool.or_eq_true, Bool.not_eq_true', not_or, Bool.not_eq_false] at hfree
    exact ⟨hfree.2, (Option.some.inj h).symm⟩

/-- A new file leaves the directories. -/
theorem isDir_create {t t' : FileTree ν β} {p q : List ν} {c : β} (h : t.create p c = some t')
    (hq : t.isDir q) : t'.isDir q := by
  unfold create at h
  split at h
  · cases h
  · next hfree =>
    cases h
    have hne : q ≠ p := by
      rintro rfl
      simp [hq] at hfree
    simpa [isDir_iff, get?_set, hne] using hq

theorem create_of_isDir {t : FileTree ν β} {p : List ν} (hparent : t.isDir p.dropLast)
    (hfree : t.isDir p = false) (c : β) : t.create p c = some (t.set p (.file c)) := by
  simp [create, hparent, hfree]

/-- A new entry leaves the directory it is in. -/
theorem isDir_set_parent {t : FileTree ν β} {p : List ν} {e : Entry β} (h : t.isDir p.dropLast) :
    (t.set p e).isDir p.dropLast := by
  rcases List.eq_nil_or_concat p with rfl | ⟨q, x, rfl⟩
  · rfl
  · simpa [isDir_iff, get?_set] using h

/-! ## Listing -/

/-- The name of `p` in the directory `d`, when `p` lies directly in it. -/
def nameIn (d p : List ν) : Option ν := p.getLast?.filter fun x => d ++ [x] = p

def children (t : FileTree ν β) (d : List ν) : List ν := t.keys.filterMap (nameIn d)

theorem nameIn_eq_some {d p : List ν} {x : ν} : nameIn d p = some x ↔ p = d ++ [x] := by
  unfold nameIn
  constructor
  · intro h
    obtain ⟨-, h⟩ := Option.filter_eq_some_iff.mp h
    exact (of_decide_eq_true h).symm
  · rintro rfl
    simp

theorem mem_children {t : FileTree ν β} {d : List ν} {x : ν} :
    x ∈ t.children d ↔ ∃ e, t.get? (d ++ [x]) = some e := by
  simp only [children, List.mem_filterMap, nameIn_eq_some, exists_eq_right]
  rw [← AList.mem_keys, ← AList.lookup_isSome, Option.isSome_iff_exists]
  rfl

theorem nodup_children (t : FileTree ν β) (d : List ν) : (t.children d).Nodup := by
  refine (AList.keys_nodup t).filterMap ?_
  intro p q x hp hq
  rw [nameIn_eq_some.mp hp, nameIn_eq_some.mp hq]

/-! ## Parts of a tree -/

/-- A location with its entry. -/
abbrev Located (ν β : Type) := Sigma fun _ : List ν => Entry β

/-- The choice `keep` on locations with their entries. -/
def keeps (keep : List ν → Entry β → Bool) (s : Located ν β) : Bool := keep s.1 s.2

/-- The entries that `keep` chooses, in their order. -/
def restrict (keep : List ν → Entry β → Bool) (t : FileTree ν β) : FileTree ν β where
  entries := t.entries.filter (keeps keep)
  nodupKeys := t.nodupKeys.sublist List.filter_sublist

section Restrict

variable {keep : List ν → Entry β → Bool}

@[simp] theorem restrict_restrict (t : FileTree ν β) :
    (t.restrict keep).restrict keep = t.restrict keep := by
  apply AList.ext
  simp [restrict]

theorem get?_restrict (t : FileTree ν β) (p : List ν) :
    (t.restrict keep).get? p = (t.get? p).filter (keep p) := by
  ext e
  have hmem : (t.restrict keep).get? p = some e ↔ Sigma.mk p e ∈ (t.restrict keep).entries :=
    AList.mem_lookup_iff
  have hmem' : t.get? p = some e ↔ Sigma.mk p e ∈ t.entries := AList.mem_lookup_iff
  rw [hmem, Option.filter_eq_some_iff, hmem']
  simp [restrict, keeps]

/-- The part decides the entries at a location of which it keeps all. -/
theorem get?_eq_of_restrict_eq {t u : FileTree ν β} (h : t.restrict keep = u.restrict keep)
    {p : List ν} (hp : ∀ e, keep p e) : t.get? p = u.get? p := by
  have hget := congrArg (fun v => v.get? p) h
  have hall : ∀ o : Option (Entry β), o.filter (keep p) = o := by
    rintro (_ | e) <;> simp [Option.filter, hp]
  simpa only [get?_restrict, hall] using hget

theorem kerase_filter (f : Located ν β → Bool) (p : List ν)
    {l : List (Located ν β)} (hl : l.NodupKeys) :
    (l.filter f).kerase p = (l.kerase p).filter f := by
  induction l with
  | nil => rfl
  | cons s l ih =>
    obtain ⟨hs, hl⟩ := List.nodupKeys_cons.mp hl
    by_cases hp : p = s.1
    · subst hp
      have hgone : s.1 ∉ (l.filter f).keys := fun h => hs ((List.filter_sublist.map _).subset h)
      rw [List.kerase_cons_eq rfl]
      by_cases hk : f s
      · rw [List.filter_cons_of_pos hk, List.kerase_cons_eq rfl]
      · rw [List.filter_cons_of_neg hk, List.kerase_of_notMem_keys hgone]
    · rw [List.kerase_cons_ne hp]
      by_cases hk : f s
      · rw [List.filter_cons_of_pos hk, List.filter_cons_of_pos hk, List.kerase_cons_ne hp, ih hl]
      · rw [List.filter_cons_of_neg hk, List.filter_cons_of_neg hk, ih hl]

theorem restrict_remove (t : FileTree ν β) (p : List ν) :
    (t.remove p).restrict keep = (t.restrict keep).remove p :=
  AList.ext (kerase_filter _ p t.nodupKeys).symm

theorem restrict_set (t : FileTree ν β) {p : List ν} {e : Entry β} (h : keep p e) :
    (t.set p e).restrict keep = (t.restrict keep).set p e := by
  apply AList.ext
  calc (List.kinsert p e t.entries).filter (keeps keep)
      = ⟨p, e⟩ :: (List.kerase p t.entries).filter (keeps keep) := List.filter_cons_of_pos h
    _ = List.kinsert p e (t.entries.filter (keeps keep)) := by
      rw [List.kinsert_def, kerase_filter _ p t.nodupKeys]

/-- A location at which the part has no entry can be erased from it. -/
theorem kerase_restrict (t : FileTree ν β) {p : List ν}
    (hold : ∀ e, t.get? p = some e → ¬ keep p e) :
    List.kerase p (t.entries.filter (keeps keep)) = t.entries.filter (keeps keep) := by
  refine List.kerase_of_notMem_keys fun hp => ?_
  obtain ⟨e, he⟩ := List.mem_keys.mp hp
  obtain ⟨hmem, hkeep⟩ := List.mem_filter.mp he
  exact hold e (AList.mem_lookup_iff.mpr hmem) hkeep

/-- A new entry outside the part, in the place of none or of one outside, does not show. -/
theorem restrict_set_of_not (t : FileTree ν β) {p : List ν} {e : Entry β} (h : ¬ keep p e)
    (hold : ∀ e', t.get? p = some e' → ¬ keep p e') :
    (t.set p e).restrict keep = t.restrict keep := by
  apply AList.ext
  calc (List.kinsert p e t.entries).filter (keeps keep)
      = (List.kerase p t.entries).filter (keeps keep) := List.filter_cons_of_neg h
    _ = List.kerase p (t.entries.filter (keeps keep)) := (kerase_filter _ p t.nodupKeys).symm
    _ = t.entries.filter (keeps keep) := kerase_restrict t hold

/-- An entry outside the part can go. -/
theorem restrict_remove_of_not (t : FileTree ν β) {p : List ν}
    (hold : ∀ e, t.get? p = some e → ¬ keep p e) :
    (t.remove p).restrict keep = t.restrict keep := by
  rw [restrict_remove]
  exact AList.ext (kerase_restrict t hold)

/-- A part that keeps all entries of a directory lists it as the whole tree does. -/
theorem children_restrict (t : FileTree ν β) {d : List ν} (h : ∀ x e, keep (d ++ [x]) e) :
    (t.restrict keep).children d = t.children d := by
  have hfilter : ∀ l : List (Located ν β), ((l.filter (keeps keep)).map Sigma.fst).filterMap
      (nameIn d) = (l.map Sigma.fst).filterMap (nameIn d) := by
    intro l
    induction l with
    | nil => rfl
    | cons s l ih =>
      by_cases hk : keeps keep s
      · rw [List.filter_cons_of_pos hk]
        simp only [List.map_cons, List.filterMap_cons, ih]
      · have hnone : nameIn d s.1 = none := by
          rw [Option.eq_none_iff_forall_ne_some]
          intro x hx
          have := h x s.2
          rw [← nameIn_eq_some.mp hx] at this
          exact hk this
        rw [List.filter_cons_of_neg hk, ih, List.map_cons, List.filterMap_cons, hnone]
  exact hfilter t.entries

/-! Two trees with the same part: what depends on the part only. -/

section Same

variable {t u : FileTree ν β}

theorem content?_eq_of_restrict_eq (h : t.restrict keep = u.restrict keep) {p : List ν}
    (hp : ∀ c, keep p (.file c)) : t.content? p = u.content? p := by
  have hfilter : ∀ o : Option (Entry β),
      (o.filter (keep p)).bind Entry.content? = o.bind Entry.content? := by
    rintro (_ | _ | c)
    · rfl
    · cases hk : keep p .dir <;> simp [Option.filter, hk]
    · simp [Option.filter, hp]
  have hget := congrArg (fun v => v.get? p) h
  simp only [get?_restrict] at hget
  rw [content?, content?, ← hfilter, hget, hfilter]

theorem isDir_eq_of_restrict_eq (h : t.restrict keep = u.restrict keep) {p : List ν}
    (hp : ∀ e, keep p e) : t.isDir p = u.isDir p := by
  rw [isDir, isDir, get?_eq_of_restrict_eq h hp]

theorem children_eq_of_restrict_eq (h : t.restrict keep = u.restrict keep) {d : List ν}
    (hd : ∀ x e, keep (d ++ [x]) e) : t.children d = u.children d := by
  rw [← children_restrict t hd, h, children_restrict u hd]

theorem restrict_set_congr (h : t.restrict keep = u.restrict keep) {p : List ν} {e : Entry β}
    (hp : keep p e) : (t.set p e).restrict keep = (u.set p e).restrict keep := by
  rw [restrict_set t hp, restrict_set u hp, h]

/-- A directory outside the part can be made; it does not show. -/
theorem restrict_ensureDir_of_not {p : List ν} (hp : ¬ keep p .dir) (h : t.ensureDir p = some u) :
    u.restrict keep = t.restrict keep := by
  unfold ensureDir at h
  rcases hget : t.get? p with _ | (_ | c) <;> rw [hget] at h <;> cases h
  · exact restrict_set_of_not t hp (by simp [hget])
  · rfl

/-- Making directories outside the part does not show in it. -/
theorem restrict_mkdirs_of_not {p : List ν} (hp : ∀ q ∈ lineage p, ¬ keep q .dir)
    (h : t.mkdirs p = some u) : u.restrict keep = t.restrict keep := by
  have hfold : ∀ (qs : List (List ν)) (t : FileTree ν β), (∀ q ∈ qs, ¬ keep q .dir) →
      qs.foldlM ensureDir t = some u → u.restrict keep = t.restrict keep := by
    intro qs
    induction qs with
    | nil =>
      rintro t - h
      cases h
      rfl
    | cons q qs ih =>
      intro t hqs h
      obtain ⟨v, hv, hrest⟩ := Option.bind_eq_some_iff.mp h
      rw [ih v (fun r hr => hqs r (by simp [hr])) hrest,
        restrict_ensureDir_of_not (hqs q (by simp)) hv]
  exact hfold _ t hp h

/-- Whether a directory can be made, and what then shows, depends on a part that has the files
at its place. -/
theorem ensureDir_congr (h : t.restrict keep = u.restrict keep) {p : List ν}
    (hp : ∀ c, keep p (.file c)) :
    (t.ensureDir p).map (restrict keep) = (u.ensureDir p).map (restrict keep) := by
  by_cases hdir : keep p .dir
  · have hget : t.get? p = u.get? p := by
      refine get?_eq_of_restrict_eq h fun e => ?_
      cases e with
      | dir => exact hdir
      | file c => exact hp c
    rcases hp : u.get? p with _ | (_ | c) <;> simp only [ensureDir, hget, hp, Option.map_some,
      Option.map_none]
    · exact congrArg some (restrict_set_congr h hdir)
    · exact congrArg some h
  · have hshows : ∀ v : FileTree ν β, (v.ensureDir p).map (restrict keep) =
        if (v.content? p).isSome then none else some (v.restrict keep) := by
      intro v
      cases hv : v.ensureDir p with
      | none =>
        have hfile : (v.content? p).isSome := by
          unfold ensureDir at hv
          rcases hget : v.get? p with _ | (_ | c) <;> simp [hget, content?] at hv ⊢
        simp [hfile]
      | some w => simp [(ensureDir_eq_some hv).1, restrict_ensureDir_of_not hdir hv]
    rw [hshows t, hshows u, content?_eq_of_restrict_eq h hp, h]

theorem mkdirs_congr (h : t.restrict keep = u.restrict keep) {p : List ν}
    (hp : ∀ q ∈ lineage p, ∀ c, keep q (.file c)) :
    (t.mkdirs p).map (restrict keep) = (u.mkdirs p).map (restrict keep) := by
  have hfold : ∀ (qs : List (List ν)) (t u : FileTree ν β), t.restrict keep = u.restrict keep →
      (∀ q ∈ qs, ∀ c, keep q (.file c)) →
      (qs.foldlM ensureDir t).map (restrict keep) =
        (qs.foldlM ensureDir u).map (restrict keep) := by
    intro qs
    induction qs with
    | nil => exact fun t u h _ => congrArg some h
    | cons q qs ih =>
      intro t u h hqs
      have hq := ensureDir_congr h (hqs q (by simp))
      simp only [List.foldlM_cons]
      cases ht : t.ensureDir q with
      | none =>
        rw [ht] at hq
        rw [Option.map_eq_none_iff.mp hq.symm]
      | some t' =>
        rw [ht] at hq
        obtain ⟨u', hu', hsame⟩ := Option.map_eq_some_iff.mp hq.symm
        rw [hu']
        exact ih t' u' hsame.symm fun r hr => hqs r (by simp [hr])
  exact hfold _ t u h hp

theorem create_congr (h : t.restrict keep = u.restrict keep) {p : List ν} (c : β)
    (hp : ∀ e, keep p e) (hparent : ∀ e, keep p.dropLast e) :
    (t.create p c).map (restrict keep) = (u.create p c).map (restrict keep) := by
  unfold create
  rw [isDir_eq_of_restrict_eq h hp, isDir_eq_of_restrict_eq h hparent]
  split
  · rfl
  · exact congrArg some (restrict_set_congr h (hp _))

end Same

end Restrict

end FileTree

end SrvBackup.Storage
