import Mathlib.Data.Finset.Sort
import Mathlib.Data.List.DropRight
import Mathlib.Order.Interval.Finset.Nat

/-!
# Rotation: keeping the greatest members of a set

`newest k s` is the set of the members of `s` with fewer than `k` greater members: what is left
when the greatest `k` are kept. `mem_take_sorted_iff` says that a program that sorts and drops
the surplus in front computes its complement.

`rotate_eq_iff` is about a set that grows in the order of a history: keeping the greatest `k`
after each addition keeps the *latest* `k` exactly when the member that becomes surplus is
smaller than the later ones.
-/
namespace SrvBackup.Storage

variable {α : Type*} [LinearOrder α]

/-- The members of `s` with fewer than `k` greater members. -/
def newest (k : Nat) (s : Finset α) : Finset α := s.filter fun x => (s.filter (x < ·)).card < k

theorem mem_newest {k : Nat} {s : Finset α} {x : α} :
    x ∈ newest k s ↔ x ∈ s ∧ (s.filter (x < ·)).card < k := Finset.mem_filter

theorem newest_subset (k : Nat) (s : Finset α) : newest k s ⊆ s := Finset.filter_subset _ _

/-- Nothing is surplus in a small set. -/
theorem newest_of_card_le {k : Nat} {s : Finset α} (h : s.card ≤ k) : newest k s = s := by
  refine Finset.filter_true_of_mem fun x hx => ?_
  have hlt : (s.filter (x < ·)).card < s.card :=
    Finset.card_lt_card (Finset.filter_ssubset.mpr ⟨x, hx, lt_irrefl x⟩)
  omega

/-- At most `k` members are kept: they differ in how many greater members they have. -/
theorem card_newest_le (k : Nat) (s : Finset α) : (newest k s).card ≤ k := by
  have hinj : Set.InjOn (fun x => (s.filter (x < ·)).card) (newest k s) := by
    intro x hx y hy hxy
    have hlt : ∀ {a b : α}, b ∈ s → a < b →
        (s.filter (b < ·)).card < (s.filter (a < ·)).card := by
      intro a b hb hab
      refine Finset.card_lt_card (Finset.ssubset_iff_of_subset ?_ |>.mpr ⟨b, ?_, ?_⟩)
      · exact Finset.monotone_filter_right s fun c _ hc => hab.trans hc
      · exact Finset.mem_filter.mpr ⟨hb, hab⟩
      · simp
    rcases lt_trichotomy x y with h | h | h
    · exact absurd hxy (hlt (mem_newest.mp hy).1 h).ne'
    · exact h
    · exact absurd hxy (hlt (mem_newest.mp hx).1 h).ne
  have hrange := Finset.card_le_card_of_injOn (t := Finset.range k) _
    (fun x hx => Finset.mem_coe.mpr (Finset.mem_range.mpr (mem_newest.mp hx).2)) hinj
  simpa using hrange

/-- One member too many: keeping the greatest `k` removes `o` exactly when `o` is the least. -/
theorem newest_insert_eq_iff {k : Nat} {s : Finset α} {o : α} (hs : s.card = k) (ho : o ∉ s) :
    newest k (insert o s) = s ↔ ∀ y ∈ s, o < y := by
  have hfilter : (insert o s).filter (o < ·) = s.filter (o < ·) := by
    rw [Finset.filter_insert, if_neg (lt_irrefl o)]
  constructor
  · intro h y hy
    have hgone : o ∉ newest k (insert o s) := by rw [h]; exact ho
    rw [mem_newest, hfilter, not_and, not_lt, ← hs] at hgone
    have hall : s.filter (o < ·) = s :=
      Finset.eq_of_subset_of_card_le (Finset.filter_subset _ _) (hgone (by simp))
    exact Finset.filter_eq_self.mp hall y hy
  · intro hleast
    ext y
    rw [mem_newest]
    constructor
    · rintro ⟨hy, hcard⟩
      rcases Finset.mem_insert.mp hy with rfl | hy
      · rw [hfilter, Finset.filter_true_of_mem hleast, hs] at hcard
        exact (lt_irrefl k hcard).elim
      · exact hy
    · intro hy
      refine ⟨Finset.mem_insert_of_mem hy, ?_⟩
      rw [Finset.filter_insert, if_neg (lt_asymm (hleast y hy)), ← hs]
      exact Finset.card_lt_card (Finset.filter_ssubset.mpr ⟨y, hy, lt_irrefl y⟩)

/-- A new least member changes nothing about the others. -/
theorem mem_newest_insert_of_least {k : Nat} {s : Finset α} {a x : α} (ha : ∀ y ∈ s, a < y)
    (hx : x ∈ s) : x ∈ newest k (insert a s) ↔ x ∈ newest k s := by
  have : (insert a s).filter (x < ·) = s.filter (x < ·) := by
    rw [Finset.filter_insert, if_neg (lt_asymm (ha x hx))]
  simp [mem_newest, this, hx]

theorem least_mem_newest_insert {k : Nat} {s : Finset α} {a : α} (ha : ∀ y ∈ s, a < y) :
    a ∈ newest k (insert a s) ↔ s.card < k := by
  have : (insert a s).filter (a < ·) = s := by
    rw [Finset.filter_insert, if_neg (lt_irrefl a)]
    exact Finset.filter_true_of_mem ha
  simp [mem_newest, this]

/-- Keeping the newest does not depend on how the members are written. -/
theorem newest_image {β : Type*} [LinearOrder β] {f : α → β} (hf : StrictMono f) (k : Nat)
    (s : Finset α) : (newest k s).image f = newest k (s.image f) := by
  have hcard : ∀ x, ((s.image f).filter (f x < ·)).card = (s.filter (x < ·)).card := by
    intro x
    rw [Finset.filter_image, Finset.card_image_of_injective _ hf.injective]
    simp only [hf.lt_iff_lt]
  ext y
  simp only [Finset.mem_image, mem_newest]
  constructor
  · rintro ⟨x, ⟨hx, hlt⟩, rfl⟩
    exact ⟨⟨x, hx, rfl⟩, (hcard x).trans_lt hlt⟩
  · rintro ⟨⟨x, hx, rfl⟩, hlt⟩
    exact ⟨x, ⟨hx, (hcard x).symm.trans_lt hlt⟩, rfl⟩

/-- A sorted listing without its last `k` entries is what `newest k` leaves out. -/
theorem mem_take_sorted_iff {l : List α} {s : Finset α} (hl : l.Pairwise (· < ·))
    (hs : ∀ x, x ∈ s ↔ x ∈ l) (k : Nat) (x : α) :
    x ∈ l.take (l.length - k) ↔ x ∈ s ∧ x ∉ newest k s := by
  obtain rfl : s = l.toFinset := Finset.ext fun y => (hs y).trans List.mem_toFinset.symm
  clear hs
  rw [List.mem_toFinset]
  induction l with
  | nil => simp
  | cons a l ih =>
    obtain ⟨ha, hl⟩ := List.pairwise_cons.mp hl
    have hleast : ∀ y ∈ l.toFinset, a < y := fun y hy => ha y (List.mem_toFinset.mp hy)
    have hcard : l.toFinset.card = l.length :=
      List.toFinset_card_of_nodup (hl.imp fun h => h.ne)
    rw [List.toFinset_cons, List.length_cons]
    by_cases hk : l.length < k
    · have hsmall : (insert a l.toFinset).card ≤ k :=
        (Finset.card_insert_le _ _).trans (by omega)
      rw [newest_of_card_le hsmall, Nat.sub_eq_zero_of_le hk]
      simp
      tauto
    · rw [Nat.sub_add_comm (by omega), List.take_succ_cons, List.mem_cons, List.mem_cons, ih hl]
      have hkeep := least_mem_newest_insert (k := k) hleast
      constructor
      · rintro (rfl | ⟨hx, hnew⟩)
        · exact ⟨.inl rfl, by rw [hkeep, hcard]; exact hk⟩
        · refine ⟨.inr hx, ?_⟩
          rwa [mem_newest_insert_of_least hleast (List.mem_toFinset.mpr hx)]
      · rintro ⟨rfl | hx, hnew⟩
        · exact .inl rfl
        · rw [mem_newest_insert_of_least hleast (List.mem_toFinset.mpr hx)] at hnew
          exact .inr ⟨hx, hnew⟩

/-- What is surplus is smaller than everything that is kept. -/
theorem lt_of_notMem_newest {k : Nat} {s : Finset α} {x y : α} (hx : x ∈ s)
    (hold : x ∉ newest k s) (hy : y ∈ newest k s) : x < y := by
  by_contra hxy
  have hmore : (s.filter (x < ·)).card ≤ (s.filter (y < ·)).card :=
    Finset.card_le_card (Finset.monotone_filter_right s fun _ _ hz => (not_lt.mp hxy).trans_lt hz)
  exact hold (mem_newest.mpr ⟨hx, hmore.trans_lt (mem_newest.mp hy).2⟩)

/-- As many members are kept as there are, up to `k`. -/
theorem card_newest (k : Nat) (s : Finset α) : (newest k s).card = min k s.card := by
  have hsorted : (s.sort (· ≤ ·)).Pairwise (· < ·) := s.sortedLT_sort.pairwise
  have hsurplus : s \ newest k s = ((s.sort (· ≤ ·)).take (s.card - k)).toFinset := by
    ext x
    have htake := mem_take_sorted_iff hsorted (fun x => (Finset.mem_sort (· ≤ ·)).symm) k x
    rw [Finset.length_sort] at htake
    rw [Finset.mem_sdiff, List.mem_toFinset, htake]
  have hcard : (s \ newest k s).card = s.card - k := by
    rw [hsurplus, List.toFinset_card_of_nodup ((s.sort_nodup (· ≤ ·)).sublist
      (List.take_sublist _ _)), List.length_take, Finset.length_sort]
    omega
  have hle := Finset.card_le_card (newest_subset k s)
  rw [Finset.card_sdiff_of_subset (newest_subset k s)] at hcard
  have hmost := card_newest_le k s
  omega
/-! ## Histories -/

/-- `s` is exactly the latest `k` entries of the history, or all of them if there are fewer. -/
def KeepsLatest (k : Nat) (h : List α) (s : Finset α) : Prop :=
  s = (h.rtake k).toFinset ∧ s.card = min h.length k

instance (k : Nat) (h : List α) (s : Finset α) : Decidable (KeepsLatest k h s) := by
  unfold KeepsLatest; infer_instance

/-- Without repetition the entries decide their number. -/
theorem keepsLatest_iff {k : Nat} {h : List α} {s : Finset α} (hnodup : h.Nodup) :
    KeepsLatest k h s ↔ s = (h.rtake k).toFinset := by
  refine ⟨And.left, fun hs => ⟨hs, ?_⟩⟩
  have hlatest : (h.rtake k).Nodup := hnodup.sublist (List.drop_sublist _ h)
  rw [hs, List.toFinset_card_of_nodup hlatest, List.rtake, List.length_drop]
  omega

/-- What is left of a history when the greatest `k` are kept after each entry. -/
def rotated (k : Nat) (h : List α) : Finset α := h.foldl (fun s x => newest k (insert x s)) ∅

@[simp] theorem rotated_nil (k : Nat) : rotated k ([] : List α) = ∅ := rfl

@[simp] theorem rotated_concat (k : Nat) (h : List α) (x : α) :
    rotated k (h ++ [x]) = newest k (insert x (rotated k h)) := by
  simp [rotated]

theorem mem_of_mem_rotated {k : Nat} {h : List α} {x : α} (hx : x ∈ rotated k h) : x ∈ h := by
  induction h using List.reverseRecOn with
  | nil => simp at hx
  | append_singleton h y ih =>
    rw [rotated_concat] at hx
    rcases Finset.mem_insert.mp (newest_subset _ _ hx) with rfl | hx
    · simp
    · exact List.mem_append_left _ (ih hx)

/-- Every entry that becomes surplus is smaller than the `k` entries that push it out. -/
def SurplusFirst (k : Nat) (h : List α) : Prop :=
  ∀ o m, o :: m <:+: h → m.length = k → ∀ y ∈ m, o < y

theorem exists_rtake_succ {β : Type*} {k : Nat} {h : List β} (hk : k < h.length) :
    ∃ o, h.rtake (k + 1) = o :: h.rtake k := by
  refine ⟨h[h.length - (k + 1)], ?_⟩
  unfold List.rtake
  rw [List.drop_eq_getElem_cons (by omega), show h.length - (k + 1) + 1 = h.length - k by omega]

/-- One addition keeps the latest `k` exactly when the entry that becomes surplus is smaller
than the later ones. -/
theorem newest_insert_latest_iff {k : Nat} {h : List α} {x : α} (hk : 1 ≤ k)
    (hnodup : (h ++ [x]).Nodup) :
    newest k (insert x (h.rtake k).toFinset) = ((h ++ [x]).rtake k).toFinset ↔
      ∀ o m, o :: m <:+ h ++ [x] → m.length = k → ∀ y ∈ m, o < y := by
  obtain ⟨k, rfl⟩ := Nat.exists_eq_add_of_le' hk
  rw [List.rtake_concat_succ]
  by_cases hlen : h.length < k + 1
  · have hall : h.rtake (k + 1) = h := by
      simp [List.rtake, Nat.sub_eq_zero_of_le hlen.le]
    have hall' : h.rtake k = h := by
      simp [List.rtake, Nat.sub_eq_zero_of_le (Nat.le_of_lt_succ hlen)]
    have hsmall : (insert x h.toFinset).card ≤ k + 1 :=
      (Finset.card_insert_le _ _).trans
        (Nat.add_le_add_right ((List.toFinset_card_le h).trans (by omega)) 1)
    rw [hall, hall', newest_of_card_le hsmall]
    constructor
    · intro _ o m hsuffix hm
      have := hsuffix.length_le
      simp at this
      omega
    · intro _
      ext y
      simp
  · obtain ⟨o, ho⟩ := exists_rtake_succ (show k < h.length by omega)
    have hsuffix : o :: (h.rtake k ++ [x]) <:+ h ++ [x] := by
      rw [← List.cons_append, ← ho]
      exact (List.suffix_append_self_iff).mpr (List.drop_suffix _ _)
    have hmlen : (h.rtake k ++ [x]).length = k + 1 := by
      simp [List.rtake]
      omega
    obtain ⟨hom, hm⟩ := List.nodup_cons.mp (hnodup.sublist hsuffix.sublist)
    have hcard : (h.rtake k ++ [x]).toFinset.card = k + 1 := by
      rw [List.toFinset_card_of_nodup hm, hmlen]
    have hswap : insert x (h.rtake (k + 1)).toFinset = insert o (h.rtake k ++ [x]).toFinset := by
      rw [ho]
      ext y
      simp
      tauto
    rw [hswap, newest_insert_eq_iff hcard (by simpa [and_comm] using hom)]
    constructor
    · intro hleast o' m' hs' hm' y hy
      have : o' :: m' = o :: (h.rtake k ++ [x]) :=
        (List.suffix_of_suffix_length_le hs' hsuffix (by simp [hm', hmlen])).eq_of_length
          (by simp [hm', hmlen])
      obtain ⟨rfl, rfl⟩ := List.cons.inj this
      exact hleast y (List.mem_toFinset.mpr hy)
    · intro h y hy
      exact h o _ hsuffix hmlen y (List.mem_toFinset.mp hy)

/-- Rotation keeps the latest `k` after every entry exactly when every surplus entry is
smaller than the entries that push it out. -/
theorem rotated_eq_latest_iff {k : Nat} {h : List α} (hk : 1 ≤ k) (hnodup : h.Nodup) :
    (∀ p, p <+: h → rotated k p = (p.rtake k).toFinset) ↔ SurplusFirst k h := by
  induction h using List.reverseRecOn with
  | nil =>
    constructor
    · intro _ o m hm
      simp at hm
    · intro _ p hp
      simp [List.prefix_nil.mp hp]
  | append_singleton h x ih =>
    have ih := ih (hnodup.sublist (List.sublist_append_left h [x]))
    have hstep := newest_insert_latest_iff hk hnodup
    constructor
    · intro hall o m hm hlen
      rcases List.infix_concat_iff.mp hm with hm | hm
      · have hprev := hall h (List.prefix_append h [x])
        have hnow := hall (h ++ [x]) (List.prefix_refl _)
        rw [rotated_concat, hprev] at hnow
        exact hstep.mp hnow o m hm hlen
      · exact ih.mp (fun p hp => hall p (hp.trans (List.prefix_append h [x]))) o m hm hlen
    · intro hfirst p hp
      have hprev := ih.mpr fun o m hm => hfirst o m (hm.trans (List.infix_append' [] h [x]))
      rcases List.prefix_concat_iff.mp hp with rfl | hp
      · rw [rotated_concat, hprev h (List.prefix_refl h)]
        exact hstep.mpr fun o m hm => hfirst o m hm.isInfix
      · exact hprev p hp

/-- A strictly increasing history always keeps its latest entries. -/
theorem surplusFirst_of_increasing {k : Nat} {h : List α} (hh : h.Pairwise (· < ·)) :
    SurplusFirst k h := fun _ _ hm _ _ hy =>
  (List.pairwise_cons.mp (hh.sublist hm.sublist)).1 _ hy

end SrvBackup.Storage
