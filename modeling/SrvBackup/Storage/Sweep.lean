import Mathlib.Data.List.Infix
import Mathlib.Tactic.Common

/-!
# Sweeping a collection

`sweep R roots present` goes through `roots` and removes from `present` what each of them covers,
up to the first one that covers nothing there. Where `R` is reflexive and transitive and the roots
are there at the start, the sweep removes all of them exactly if the list begins with roots that
do not cover each other and cover all others (`RootsFirst`).
-/
namespace SrvBackup.Storage

variable {α : Type} (R : α → α → Prop) [DecidableRel R]

def sweep : List α → List α → List α
  | [], present => present
  | x :: xs, present =>
    if ∃ s ∈ present, R x s then sweep xs (present.filter fun s => ¬ R x s) else present

/-- The list begins with members that cover no later one of them, and they cover the others. -/
def RootsFirst (xs : List α) : Prop :=
  ∃ roots rest, xs = roots ++ rest ∧ roots.Pairwise (fun r s => ¬ R r s) ∧
    ∀ s ∈ rest, ∃ r ∈ roots, R r s

/-- What no member of `done` covers. -/
def uncovered (done xs : List α) : List α := xs.filter fun s => ∀ r ∈ done, ¬ R r s

variable {R} {done rest xs : List α} {x : α}

theorem mem_uncovered : x ∈ uncovered R done xs ↔ x ∈ xs ∧ ∀ r ∈ done, ¬ R r x := by
  simp [uncovered]

@[simp] theorem uncovered_nil : uncovered R [] xs = xs := by simp [uncovered]

theorem uncovered_concat :
    uncovered R (done ++ [x]) xs = (uncovered R done xs).filter fun s => ¬ R x s := by
  unfold uncovered
  rw [List.filter_filter]
  refine List.filter_congr fun s _ => ?_
  simp only [List.mem_append, List.mem_singleton, or_imp, forall_and, forall_eq,
    Bool.decide_and, and_comm]

omit [DecidableRel R] in
/-- Roots that do not cover each other, before one that they cover, are all the roots. -/
theorem rootsFirst_iff_of_covered {r : α} (hdone : done.Pairwise fun r s => ¬ R r s)
    (hr : r ∈ done) (hx : R r x) :
    RootsFirst R (done ++ x :: rest) ↔ ∀ s ∈ x :: rest, ∃ r ∈ done, R r s := by
  constructor
  · rintro ⟨roots, others, hsplit, hroots, hcovered⟩
    -- a root after `done` would be `x`, or come after it
    have hlength : roots.length ≤ done.length := by
      by_contra! hlonger
      have hnext : done ++ [x] <+: done ++ x :: rest := ⟨rest, by simp⟩
      have hpre : done ++ [x] <+: roots := by
        apply List.prefix_of_prefix_length_le hnext ⟨others, hsplit.symm⟩
        simpa using Nat.succ_le_of_lt hlonger
      have hpair := hroots.sublist hpre.sublist
      exact (List.pairwise_append.mp hpair).2.2 r hr x (by simp) hx
    have hpre : roots <+: done :=
      List.prefix_of_prefix_length_le ⟨others, hsplit.symm⟩ (List.prefix_append _ _) hlength
    obtain ⟨mid, rfl⟩ := hpre
    have hothers : others = mid ++ x :: rest := by simpa using hsplit.symm
    intro s hs
    obtain ⟨r', hr', hcover⟩ := hcovered s (by simp [hothers, List.mem_cons.mp hs])
    exact ⟨r', List.mem_append_left _ hr', hcover⟩
  · exact fun h => ⟨done, x :: rest, rfl, hdone, h⟩

/-- The sweep with `done` behind it and `rest` to come. -/
theorem sweep_uncovered_iff (hrefl : ∀ s, R s s) (htrans : ∀ r s t, R r s → R s t → R r t)
    (hxs : ∀ s ∈ done ++ rest, s ∈ xs) (hdone : done.Pairwise fun r s => ¬ R r s) :
    (∀ s ∈ done ++ rest, s ∉ sweep R rest (uncovered R done xs)) ↔ RootsFirst R (done ++ rest) := by
  induction rest generalizing done with
  | nil =>
    refine ⟨fun _ => ⟨done, [], rfl, hdone, by simp⟩, fun _ s hs hleft => ?_⟩
    rw [List.append_nil] at hs
    exact (mem_uncovered.mp hleft).2 s hs (hrefl s)
  | cons x rest ih =>
    rw [sweep]
    split
    · next hsome =>
      obtain ⟨s, hs, hcover⟩ := hsome
      have hnew : ∀ r ∈ done, ¬ R r x := fun r hr h =>
        (mem_uncovered.mp hs).2 r hr (htrans r x s h hcover)
      have hdone' : (done ++ [x]).Pairwise fun r s => ¬ R r s :=
        List.pairwise_append.mpr ⟨hdone, by simp, by simpa using hnew⟩
      rw [← uncovered_concat, List.append_cons done x rest]
      exact ih (by simpa using hxs) hdone'
    · next hnone =>
      have hgone : x ∉ uncovered R done xs := fun h => hnone ⟨x, h, hrefl x⟩
      have hcovered : ∀ s ∈ done ++ x :: rest, s ∉ uncovered R done xs ↔ ∃ r ∈ done, R r s := by
        intro s hs
        simp only [mem_uncovered, hxs s hs, true_and]
        push Not
        rfl
      obtain ⟨r, hr, hx⟩ := (hcovered x (by simp)).mp hgone
      rw [rootsFirst_iff_of_covered hdone hr hx]
      constructor
      · exact fun h s hs => (hcovered s (by simp [List.mem_cons.mp hs])).mp (h s (by
          simp [List.mem_cons.mp hs]))
      · intro h s hs
        refine (hcovered s hs).mpr ?_
        rcases List.mem_append.mp hs with hs | hs
        · exact ⟨s, hs, hrefl s⟩
        · exact h s hs

/-- A sweep by members of the collection leaves none of them exactly if the roots come first. -/
theorem sweep_complete_iff (hrefl : ∀ s, R s s) (htrans : ∀ r s t, R r s → R s t → R r t)
    {roots : List α} (hroots : ∀ s ∈ roots, s ∈ xs) :
    (∀ s ∈ roots, s ∉ sweep R roots xs) ↔ RootsFirst R roots := by
  simpa using @sweep_uncovered_iff α R _ [] roots xs hrefl htrans (by simpa using hroots) .nil

theorem sweep_subset (hx : x ∈ sweep R rest xs) : x ∈ xs := by
  induction rest generalizing xs with
  | nil => exact hx
  | cons r rest ih =>
    rw [sweep] at hx
    split at hx
    · exact List.mem_of_mem_filter (ih hx)
    · exact hx

end SrvBackup.Storage
