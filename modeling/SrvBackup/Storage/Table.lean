import Mathlib.Data.List.Infix
import Mathlib.Data.List.Nodup
import Mathlib.Tactic.Common

/-!
# Nested tables

A dictionary of dictionaries: a leaf, or entries in the order in which their keys came. `at?`
follows a list of keys; two nested tables are the `Same` when every list of keys leads to the same
kind of thing in both, whatever the order of their entries.

`nest` stores a value below a list of keys and makes the tables on the way. `Holds` says what is
left when this is done for a list of assignments; `Holds.nest` is one step, and needs that no path
of an assignment is above the path of another. `IsMerge` is what a deep merge of two tables does,
and `IsMerge.at?_assigned` what a merge with assignments has.
-/
namespace SrvBackup.Storage

inductive Nested (κ α : Type) where
  | leaf (a : α)
  | table (entries : List (κ × Nested κ α))

/-- The entries of a table; the first one of a key counts. -/
abbrev Table (κ α : Type) := List (κ × Nested κ α)

theorem lookup_cons_eq_if {κ β : Type} [BEq κ] [LawfulBEq κ] [DecidableEq κ] (k k' : κ) (v : β)
    (es : List (κ × β)) :
    List.lookup k' ((k, v) :: es) = if k' = k then some v else es.lookup k' := by
  by_cases hk : k' = k
  · simp [hk]
  · have hbeq : (k' == k) = false := by simpa using hk
    simp [List.lookup_cons, hbeq, hk]

namespace Table

variable {κ α : Type} [DecidableEq κ]

/-- `es[k] = v`: an old key keeps its place, a new one comes last. -/
def put (es : Table κ α) (k : κ) (v : Nested κ α) : Table κ α :=
  match es with
  | [] => [(k, v)]
  | (k', v') :: es => if k' = k then (k', v) :: es else (k', v') :: put es k v

@[simp] theorem lookup_put (es : Table κ α) (k k' : κ) (v : Nested κ α) :
    (es.put k v).lookup k' = if k' = k then some v else es.lookup k' := by
  induction es with
  | nil => exact lookup_cons_eq_if k k' v []
  | cons e es ih =>
    obtain ⟨l, w⟩ := e
    unfold put
    split
    · next hl =>
      subst hl
      grind [lookup_cons_eq_if]
    · next hl => grind [lookup_cons_eq_if]

/-- Store `v` below the keys `k :: ks`, making the tables on the way; a leaf that is in the way ends
it, with the keys that would have come below the leaf. -/
def nest (es : Table κ α) (k : κ) (ks : List κ) (v : Nested κ α) : Except (List κ) (Table κ α) :=
  match ks with
  | [] => .ok (es.put k v)
  | k' :: rest =>
    match (es.lookup k).getD (.table []) with
    | .leaf _ => .error (k' :: rest)
    | .table sub => (nest sub k' rest v).map fun sub => es.put k (.table sub)

end Table

namespace Nested

variable {κ α : Type} [DecidableEq κ]

/-- What the keys `p` lead to. -/
def at? (t : Nested κ α) (p : List κ) : Option (Nested κ α) :=
  match p, t with
  | [], t => some t
  | _ :: _, .leaf _ => none
  | k :: p, .table es => (es.lookup k).bind fun t => t.at? p

/-- The leaf, if it is one. -/
def leaf? : Nested κ α → Option α
  | .leaf a => some a
  | .table _ => none

/-- The same leaves and tables at the same places. -/
def Same (t u : Nested κ α) : Prop := ∀ p, (t.at? p).map leaf? = (u.at? p).map leaf?

@[simp] theorem at?_nil (t : Nested κ α) : t.at? [] = some t := by
  cases t <;> rfl

@[simp] theorem at?_leaf_cons (a : α) (k : κ) (p : List κ) :
    (Nested.leaf a).at? (k :: p) = none := rfl

theorem at?_table_cons (es : Table κ α) (k : κ) (p : List κ) :
    (Nested.table es).at? (k :: p) = (es.lookup k).bind fun t => t.at? p := rfl

theorem at?_singleton (es : Table κ α) (k : κ) : (Nested.table es).at? [k] = es.lookup k := by
  rw [at?_table_cons]
  cases es.lookup k <;> simp

theorem at?_append (t : Nested κ α) (p q : List κ) :
    t.at? (p ++ q) = (t.at? p).bind fun u => u.at? q := by
  induction p generalizing t with
  | nil => simp
  | cons k p ih =>
    cases t with
    | leaf a => rfl
    | table es =>
      rw [List.cons_append, at?_table_cons, at?_table_cons]
      cases es.lookup k with
      | none => rfl
      | some u => exact ih u

/-- With an empty table in its place a missing entry is still without leaves. -/
theorem at?_getD_table (o : Option (Nested κ α)) {p : List κ} (hp : p ≠ []) :
    (o.getD (.table [])).at? p = o.bind fun t => t.at? p := by
  cases o with
  | some t => rfl
  | none =>
    obtain ⟨k, p, rfl⟩ := List.exists_cons_of_ne_nil hp
    rfl

end Nested

namespace Table

open Nested

variable {κ α : Type} [DecidableEq κ]

/-! ## Storing one value -/

section Nest

variable {es es' : Table κ α} {k : κ} {ks : List κ} {v : Nested κ α}

/-- A value below two keys or more goes below the later ones in the table of the first. -/
theorem nest_cons {k' : κ} {rest : List κ} (h : es.nest k (k' :: rest) v = .ok es') :
    ∃ sub sub', (es.lookup k).getD (.table []) = .table sub ∧ nest sub k' rest v = .ok sub' ∧
      es' = es.put k (.table sub') := by
  unfold nest at h
  split at h
  · cases h
  · next sub hsub =>
    cases hrest : nest sub k' rest v with
    | error e => simp [hrest, Except.map] at h
    | ok sub' =>
      simp only [hrest, Except.map, Except.ok.injEq] at h
      exact ⟨sub, sub', hsub, hrest, h.symm⟩

theorem at?_nest (h : es.nest k ks v = .ok es') (q : List κ) :
    (Nested.table es').at? ((k :: ks) ++ q) = v.at? q := by
  induction ks generalizing es es' k with
  | nil =>
    cases h
    simp [at?_table_cons]
  | cons k' rest ih =>
    obtain ⟨sub, sub', hsub, hrest, rfl⟩ := nest_cons h
    have hstep := ih hrest
    simpa [at?_table_cons] using hstep

/-- Above the stored value there are tables. -/
theorem at?_nest_above (h : es.nest k ks v = .ok es') {p : List κ} (hp : p <+: k :: ks)
    (hne : p ≠ k :: ks) : ∃ sub, (Nested.table es').at? p = some (.table sub) := by
  induction ks generalizing es es' k p with
  | nil =>
    cases p with
    | nil => exact ⟨es', at?_nil _⟩
    | cons x p => grind
  | cons k' rest ih =>
    obtain ⟨sub, sub', hsub, hrest, rfl⟩ := nest_cons h
    cases p with
    | nil => exact ⟨_, at?_nil _⟩
    | cons x p =>
      obtain ⟨rfl, hp'⟩ := List.cons_prefix_cons.mp hp
      obtain ⟨inner, hinner⟩ := ih hrest hp' fun h => hne (by rw [h])
      exact ⟨inner, by simpa [at?_table_cons] using hinner⟩

/-- Elsewhere nothing changes. -/
theorem at?_nest_other (h : es.nest k ks v = .ok es') {p : List κ} (hbelow : ¬ k :: ks <+: p)
    (habove : ¬ p <+: k :: ks) : (Nested.table es').at? p = (Nested.table es).at? p := by
  induction ks generalizing es es' k p with
  | nil =>
    cases h
    cases p with
    | nil => exact absurd List.nil_prefix habove
    | cons x p =>
      have hx : x ≠ k := by
        rintro rfl
        exact hbelow (by simp)
      simp [at?_table_cons, hx]
  | cons k' rest ih =>
    obtain ⟨sub, sub', hsub, hrest, rfl⟩ := nest_cons h
    cases p with
    | nil => exact absurd List.nil_prefix habove
    | cons x p =>
      by_cases hx : x = k
      · subst hx
        rw [List.cons_prefix_cons] at hbelow habove
        have hstep := ih hrest (by tauto) (by tauto)
        have hp : p ≠ [] := by
          rintro rfl
          exact habove ⟨rfl, List.nil_prefix⟩
        rw [at?_table_cons, at?_table_cons, lookup_put, if_pos rfl, Option.bind_some, hstep,
          ← hsub, at?_getD_table _ hp]
      · simp [at?_table_cons, hx]

/-- A value can be stored where only tables are above it. -/
theorem exists_nest (h : ∀ p t, p <+: k :: ks → p ≠ k :: ks → p ≠ [] →
    (Nested.table es).at? p = some t → ∃ sub, t = .table sub) :
    ∃ es', es.nest k ks v = .ok es' := by
  induction ks generalizing es k with
  | nil => exact ⟨_, rfl⟩
  | cons k' rest ih =>
    obtain ⟨sub, hsub⟩ : ∃ sub, (es.lookup k).getD (.table []) = .table sub := by
      cases hk : es.lookup k with
      | none => exact ⟨[], rfl⟩
      | some t => exact h [k] t (by simp) (by simp) (by simp) (by simp [at?_table_cons, hk])
    have hrest : ∀ p t, p <+: k' :: rest → p ≠ k' :: rest → p ≠ [] →
        (Nested.table sub).at? p = some t → ∃ inner, t = .table inner := by
      intro p t hp hne hnil ht
      rw [← hsub, at?_getD_table _ hnil] at ht
      exact h (k :: p) t (by simpa using hp) (by simpa using hne) (by simp) ht
    obtain ⟨sub', hsub'⟩ := ih hrest
    refine ⟨es.put k (.table sub'), ?_⟩
    unfold nest
    simp only [hsub, hsub']
    rfl

end Nest

/-! ## Storing values one after the other -/

/-- The value of the last assignment to `p`. -/
def lastValue (sets : List (List κ × Nested κ α)) (p : List κ) : Option (Nested κ α) :=
  sets.reverse.lookup p

/-- No one of the paths is above another. -/
def Apart (paths : List (List κ)) : Prop := ∀ p ∈ paths, ∀ q ∈ paths, p <+: q → p = q

/-- What the assignments leave: each path leads to its last value, and what is not below one of the
paths is a table above one. -/
structure Holds (sets : List (List κ × Nested κ α)) (es : Table κ α) : Prop where
  reads : ∀ p v, lastValue sets p = some v → (Nested.table es).at? p = some v
  only : ∀ p t, p ≠ [] → (Nested.table es).at? p = some t →
    (∃ q ∈ sets.map Prod.fst, q <+: p) ∨
      (∃ q ∈ sets.map Prod.fst, p <+: q) ∧ ∃ sub, t = .table sub

section Assignments

variable {sets sets' : List (List κ × Nested κ α)} {es es' : Table κ α}

theorem lastValue_concat (sets : List (List κ × Nested κ α)) (p q : List κ) (v : Nested κ α) :
    lastValue (sets ++ [(p, v)]) q = if q = p then some v else lastValue sets q := by
  rw [lastValue, List.reverse_concat]
  exact lookup_cons_eq_if p q v _

theorem exists_lastValue {p : List κ} :
    (∃ v, lastValue sets p = some v) ↔ p ∈ sets.map Prod.fst := by
  rw [← Option.isSome_iff_exists, lastValue, List.lookup_isSome_iff]
  simp

/-- With one assignment for each path their order does not matter. -/
theorem lastValue_perm (hperm : sets.Perm sets') (hnodup : (sets.map Prod.fst).Nodup)
    (p : List κ) : lastValue sets p = lastValue sets' p := by
  have hmem : ∀ l : List (List κ × Nested κ α), (l.map Prod.fst).Nodup → ∀ v,
      l.lookup p = some v ↔ (p, v) ∈ l := by
    intro l hl v
    induction l with
    | nil => simp
    | cons s l ih =>
      obtain ⟨q, w⟩ := s
      obtain ⟨hq, hl⟩ := List.nodup_cons.mp hl
      rw [lookup_cons_eq_if]
      by_cases hp : p = q
      · subst hp
        have hno : (p, v) ∉ l := fun h => hq (List.mem_map.mpr ⟨_, h, rfl⟩)
        simp [hno, eq_comm]
      · simp [hp, ih hl]
  have hrev : ∀ l : List (List κ × Nested κ α), (l.map Prod.fst).Nodup →
      (l.reverse.map Prod.fst).Nodup := by
    intro l hl
    rw [List.map_reverse]
    exact List.nodup_reverse.mpr hl
  have hnodup' := (hperm.map Prod.fst).nodup_iff.mp hnodup
  refine Option.ext fun v => ?_
  rw [lastValue, lastValue, hmem _ (hrev _ hnodup), hmem _ (hrev _ hnodup'), List.mem_reverse,
    List.mem_reverse, hperm.mem_iff]

theorem Holds.empty : Holds ([] : List (List κ × Nested κ α)) [] where
  reads := by simp [lastValue]
  only p t hp h := by
    obtain ⟨k, p, rfl⟩ := List.exists_cons_of_ne_nil hp
    simp [at?_table_cons] at h

/-- One more assignment, whose path is neither above nor below the others: it can be stored. -/
theorem Holds.nest (h : Holds sets es) {k : κ} {ks : List κ} {v : Nested κ α}
    (hapart : Apart ((sets ++ [(k :: ks, v)]).map Prod.fst)) :
    ∃ es', es.nest k ks v = .ok es' ∧ Holds (sets ++ [(k :: ks, v)]) es' := by
  have hnew : k :: ks ∈ (sets ++ [(k :: ks, v)]).map Prod.fst := by simp
  have hold : ∀ q ∈ sets.map Prod.fst, q ∈ (sets ++ [(k :: ks, v)]).map Prod.fst := by
    intro q hq
    rw [List.map_append]
    exact List.mem_append_left _ hq
  obtain ⟨es', hes'⟩ : ∃ es', es.nest k ks v = .ok es' := by
    refine exists_nest fun p t hp hne hnil ht => ?_
    rcases h.only p t hnil ht with ⟨q, hq, hqp⟩ | ⟨-, htable⟩
    · have heq := hapart q (hold q hq) _ hnew (hqp.trans hp)
      exact absurd (hp.eq_of_length_le (heq ▸ hqp).length_le) hne
    · exact htable
  refine ⟨es', hes', fun p w hw => ?_, fun p t hnil ht => ?_⟩
  · rw [lastValue_concat] at hw
    split at hw
    · next hp =>
      cases hw
      simpa [hp] using at?_nest hes' []
    · next hp =>
      have hp' := hold p (exists_lastValue.mp ⟨w, hw⟩)
      rw [at?_nest_other hes' (fun hpre => hp (hapart _ hnew p hp' hpre).symm)
        (fun hpre => hp (hapart p hp' _ hnew hpre))]
      exact h.reads p w hw
  · by_cases hbelow : k :: ks <+: p
    · exact .inl ⟨_, hnew, hbelow⟩
    by_cases habove : p <+: k :: ks
    · obtain ⟨sub, hsub⟩ := at?_nest_above hes' habove fun heq => hbelow (by rw [heq])
      rw [hsub] at ht
      exact .inr ⟨⟨_, hnew, habove⟩, sub, (Option.some.inj ht).symm⟩
    · rw [at?_nest_other hes' hbelow habove] at ht
      rcases h.only p t hnil ht with ⟨q, hq, hqp⟩ | ⟨⟨q, hq, hpq⟩, htable⟩
      · exact .inl ⟨q, hold q hq, hqp⟩
      · exact .inr ⟨⟨q, hold q hq, hpq⟩, htable⟩

/-- What is not below a path is a table if it is above one and nothing otherwise. -/
theorem Holds.leaf?_eq (h : Holds sets es) {p : List κ} (hnil : p ≠ [])
    (hno : ∀ q ∈ sets.map Prod.fst, ¬ q <+: p) :
    ((Nested.table es).at? p).map leaf? =
      if ∃ q ∈ sets.map Prod.fst, p <+: q then some none else none := by
  cases ht : (Nested.table es).at? p with
  | none =>
    rw [if_neg]
    · rfl
    rintro ⟨q, hq, r, rfl⟩
    obtain ⟨v, hv⟩ := exists_lastValue.mpr hq
    have hread := h.reads _ v hv
    simp [at?_append, ht] at hread
  | some t =>
    rcases h.only p t hnil ht with ⟨q, hq, hqp⟩ | ⟨habove, sub, rfl⟩
    · exact absurd hqp (hno q hq)
    · rw [if_pos habove]
      rfl

/-- Above what no path of an assignment is above there is no leaf. -/
theorem Holds.at?_ne_leaf (h : Holds sets es) {p q : List κ}
    (hfree : ∀ q ∈ sets.map Prod.fst, ¬ q <+: p) (hq : q <+: p) (a : α) :
    (Nested.table es).at? q ≠ some (.leaf a) := by
  intro hleaf
  cases q with
  | nil => cases hleaf
  | cons k q =>
    rcases h.only _ _ (by simp) hleaf with ⟨q', hq', hq'q⟩ | ⟨-, sub, hsub⟩
    · exact hfree q' hq' (hq'q.trans hq)
    · cases hsub

/-- Assignments with the same last values leave the same. -/
theorem Holds.same (h : Holds sets es) (h' : Holds sets' es')
    (hvalue : ∀ p, lastValue sets p = lastValue sets' p) :
    (Nested.table es).Same (.table es') := by
  have hpaths : ∀ q, q ∈ sets.map Prod.fst ↔ q ∈ sets'.map Prod.fst := by
    intro q
    rw [← exists_lastValue, ← exists_lastValue, hvalue]
  intro p
  by_cases hnil : p = []
  · subst hnil
    simp [leaf?]
  by_cases hbelow : ∃ q ∈ sets.map Prod.fst, q <+: p
  · obtain ⟨q, hq, r, rfl⟩ := hbelow
    obtain ⟨v, hv⟩ := exists_lastValue.mpr hq
    rw [at?_append, at?_append, h.reads q v hv, h'.reads q v (hvalue q ▸ hv)]
  · push Not at hbelow
    rw [h.leaf?_eq hnil hbelow, h'.leaf?_eq hnil fun q hq => hbelow q ((hpaths q).mpr hq)]
    simp only [hpaths]

end Assignments

/-! ## Merging -/

/-- What a deep merge of `other` into `base` holds: tables that meet are merged, and whatever else
`other` has replaces what it meets. -/
structure IsMerge (merge : Table κ α → Table κ α → Table κ α) : Prop where
  absent : ∀ base other k, other.lookup k = none → (merge base other).lookup k = base.lookup k
  merged : ∀ base other k b o, base.lookup k = some (.table b) → other.lookup k = some (.table o) →
    (merge base other).lookup k = some (.table (merge b o))
  replaced : ∀ base other k v, other.lookup k = some v →
    ((∀ b, base.lookup k ≠ some (.table b)) ∨ ∀ o, v ≠ .table o) →
    (merge base other).lookup k = some v

mutual

/-- A deep merge; the first entry of a key in `other` counts. -/
def merge (base : Table κ α) (other : Table κ α) : Table κ α :=
  match other with
  | [] => base
  | (k, v) :: other => (merge base other).put k (mergeValue (base.lookup k) v)

def mergeValue (old : Option (Nested κ α)) (new : Nested κ α) : Nested κ α :=
  match new with
  | .leaf a => .leaf a
  | .table o =>
    match old with
    | some (.table b) => .table (merge b o)
    | _ => .table o

end

theorem lookup_merge (base other : Table κ α) (k : κ) :
    (merge base other).lookup k =
      match other.lookup k with
      | some v => some (mergeValue (base.lookup k) v)
      | none => base.lookup k := by
  induction other with
  | nil => simp [merge]
  | cons e other ih =>
    obtain ⟨l, w⟩ := e
    rw [merge, lookup_put, lookup_cons_eq_if, ih]
    by_cases hk : k = l <;> simp [hk]

theorem merge_isMerge : IsMerge (@merge κ α _) where
  absent base other k h := by rw [lookup_merge, h]
  merged base other k b o hb ho := by
    rw [lookup_merge, hb, ho]
    simp [mergeValue]
  replaced base other k v hv h := by
    rw [lookup_merge, hv]
    cases v with
    | leaf a => simp [mergeValue]
    | table o =>
      have hb := h.resolve_right fun hno => hno o rfl
      cases hbase : base.lookup k with
      | none => simp [mergeValue]
      | some t =>
        cases t with
        | leaf a => simp [mergeValue]
        | table b => exact absurd hbase (hb b)

section IsMerge

variable {m : Table κ α → Table κ α → Table κ α}

/-- A leaf of the overriding table is one of the merged table. -/
theorem IsMerge.at?_leaf (hm : IsMerge m) {base other : Table κ α} {p : List κ} {a : α}
    (h : (Nested.table other).at? p = some (.leaf a)) :
    (Nested.table (m base other)).at? p = some (.leaf a) := by
  induction p generalizing base other with
  | nil => simp at h
  | cons k p ih =>
    rw [at?_table_cons] at h ⊢
    obtain ⟨v, hv, hp⟩ := Option.bind_eq_some_iff.mp h
    by_cases htables : (∀ b, base.lookup k ≠ some (.table b)) ∨ ∀ o, v ≠ .table o
    · rw [hm.replaced base other k v hv htables]
      exact hp
    · push Not at htables
      obtain ⟨⟨b, hb⟩, o, rfl⟩ := htables
      rw [hm.merged base other k b o hb hv]
      exact ih hp

/-- So is a table. -/
theorem IsMerge.at?_table (hm : IsMerge m) {base other : Table κ α} {p : List κ} {es : Table κ α}
    (h : (Nested.table other).at? p = some (.table es)) :
    ∃ es', (Nested.table (m base other)).at? p = some (.table es') := by
  induction p generalizing base other with
  | nil => exact ⟨_, at?_nil _⟩
  | cons k p ih =>
    rw [at?_table_cons] at h
    obtain ⟨v, hv, hp⟩ := Option.bind_eq_some_iff.mp h
    by_cases htables : (∀ b, base.lookup k ≠ some (.table b)) ∨ ∀ o, v ≠ .table o
    · refine ⟨es, ?_⟩
      rw [at?_table_cons, hm.replaced base other k v hv htables]
      exact hp
    · push Not at htables
      obtain ⟨⟨b, hb⟩, o, rfl⟩ := htables
      obtain ⟨es', hes'⟩ := @ih b _ hp
      refine ⟨es', ?_⟩
      rw [at?_table_cons, hm.merged base other k b o hb hv]
      exact hes'

/-- Where the overriding table has nothing, what is there is from the base. -/
theorem IsMerge.at?_base (hm : IsMerge m) {base other : Table κ α} {p : List κ} {t : Nested κ α}
    (hno : (Nested.table other).at? p = none) (h : (Nested.table (m base other)).at? p = some t) :
    (Nested.table base).at? p = some t := by
  induction p generalizing base other with
  | nil => simp at hno
  | cons k p ih =>
    rw [at?_table_cons] at hno h ⊢
    cases hv : other.lookup k with
    | none => rwa [hm.absent base other k hv] at h
    | some v =>
      rw [hv] at hno
      by_cases htables : (∀ b, base.lookup k ≠ some (.table b)) ∨ ∀ o, v ≠ .table o
      · rw [hm.replaced base other k v hv htables] at h
        exact absurd (hno.symm.trans h) (by simp)
      · push Not at htables
        obtain ⟨⟨b, hb⟩, o, rfl⟩ := htables
        rw [hm.merged base other k b o hb hv] at h
        rw [hb]
        exact ih hno h

/-- A value in the place of another: tables are merged. -/
def laid (m : Table κ α → Table κ α → Table κ α) (old : Option (Nested κ α)) (new : Nested κ α) :
    Nested κ α :=
  match old, new with
  | some (.table b), .table o => .table (m b o)
  | _, v => v

/-- What the overriding table has is laid over what the base has there. -/
theorem IsMerge.at?_of_some (hm : IsMerge m) {base other : Table κ α} {p : List κ}
    {v : Nested κ α} (h : (Nested.table other).at? p = some v) :
    (Nested.table (m base other)).at? p = some (laid m ((Nested.table base).at? p) v) := by
  induction p generalizing base other with
  | nil =>
    cases h
    rfl
  | cons k p ih =>
    rw [at?_table_cons] at h ⊢
    rw [at?_table_cons]
    obtain ⟨w, hw, hp⟩ := Option.bind_eq_some_iff.mp h
    by_cases htables : (∀ b, base.lookup k ≠ some (.table b)) ∨ ∀ o, w ≠ .table o
    · rw [hm.replaced base other k w hw htables, Option.bind_some, hp]
      congr 1
      cases hbase : base.lookup k with
      | none => rfl
      | some t =>
        cases t with
        | leaf a => cases p <;> rfl
        | table b =>
          have hleaf := htables.resolve_left fun hno => hno b hbase
          cases w with
          | table o => exact absurd rfl (hleaf o)
          | leaf a =>
            cases p with
            | nil =>
              cases hp
              rfl
            | cons k' p => cases hp
    · push Not at htables
      obtain ⟨⟨b, hb⟩, o, rfl⟩ := htables
      rw [hm.merged base other k b o hb hw, hb]
      exact ih hp

/-- Where the overriding table has nothing, and no leaf on the way there, the base counts. -/
theorem IsMerge.at?_of_none (hm : IsMerge m) {base other : Table κ α} {p : List κ}
    (h : (Nested.table other).at? p = none)
    (hway : ∀ q a, q <+: p → (Nested.table other).at? q ≠ some (.leaf a)) :
    (Nested.table (m base other)).at? p = (Nested.table base).at? p := by
  induction p generalizing base other with
  | nil => simp at h
  | cons k p ih =>
    rw [at?_table_cons] at h ⊢
    rw [at?_table_cons]
    cases hw : other.lookup k with
    | none => rw [hm.absent base other k hw]
    | some w =>
      rw [hw] at h
      have hway' : ∀ q a, q <+: p → w.at? q ≠ some (.leaf a) := by
        intro q a hq
        have hstep := hway (k :: q) a (List.cons_prefix_cons.mpr ⟨rfl, hq⟩)
        rwa [at?_table_cons, hw] at hstep
      cases w with
      | leaf a => exact absurd rfl (hway' [] a List.nil_prefix)
      | table o =>
        cases hbase : base.lookup k with
        | none =>
          rw [hm.replaced base other k _ hw (.inl (by simp [hbase]))]
          exact h
        | some t =>
          cases t with
          | leaf a =>
            rw [hm.replaced base other k _ hw (.inl (by simp [hbase]))]
            cases p with
            | nil => cases h
            | cons k' p => exact h
          | table b =>
            rw [hm.merged base other k b o hbase hw]
            exact ih h hway'

/-- What a merge with assignments has: the last value of the path, laid over what was there. -/
def assigned (m : Table κ α → Table κ α → Table κ α) (base : Table κ α)
    (sets : List (List κ × Nested κ α)) (p : List κ) : Option (Nested κ α) :=
  match lastValue sets p with
  | some v => some (laid m ((Nested.table base).at? p) v)
  | none => (Nested.table base).at? p

/-- It is there at a path that no other path of an assignment is above or below. -/
theorem IsMerge.at?_assigned (hm : IsMerge m) {sets : List (List κ × Nested κ α)}
    {base es : Table κ α} (hholds : Holds sets es) {p : List κ} (hnil : p ≠ [])
    (halone : ∀ q ∈ sets.map Prod.fst, q <+: p ∨ p <+: q → q = p) :
    (Nested.table (m base es)).at? p = assigned m base sets p := by
  unfold assigned
  cases hlast : lastValue sets p with
  | some v => exact hm.at?_of_some (hholds.reads p v hlast)
  | none =>
    have hfree : p ∉ sets.map Prod.fst := by
      rw [← exists_lastValue, hlast]
      simp
    have hbelow : ∀ q ∈ sets.map Prod.fst, ¬ q <+: p := fun q hq hqp =>
      hfree (halone q hq (.inl hqp) ▸ hq)
    refine hm.at?_of_none ?_ fun q a hqp => hholds.at?_ne_leaf hbelow hqp a
    cases ht : (Nested.table es).at? p with
    | none => rfl
    | some t =>
      rcases hholds.only p t hnil ht with ⟨q, hq, hqp⟩ | ⟨⟨q, hq, hpq⟩, -⟩
      · exact absurd hqp (hbelow q hq)
      · exact absurd (halone q hq (.inr hpq) ▸ hq) hfree

/-- Where no path of an assignment is above, there is a table or what was there. -/
theorem IsMerge.at?_above (hm : IsMerge m) {sets : List (List κ × Nested κ α)} {base es : Table κ α}
    (hholds : Holds sets es) {p : List κ} (hnil : p ≠ [])
    (hfree : ∀ q ∈ sets.map Prod.fst, ¬ q <+: p) :
    (∃ sub, (Nested.table (m base es)).at? p = some (.table sub)) ∨
      (Nested.table (m base es)).at? p = (Nested.table base).at? p := by
  cases ht : (Nested.table es).at? p with
  | none => exact .inr (hm.at?_of_none ht fun q a hqp => hholds.at?_ne_leaf hfree hqp a)
  | some t =>
    rcases hholds.only p t hnil ht with ⟨q, hq, hqp⟩ | ⟨-, sub, rfl⟩
    · exact absurd hqp (hfree q hq)
    · exact .inl (hm.at?_table ht)

end IsMerge

end Table

end SrvBackup.Storage
