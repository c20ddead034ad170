import Mathlib.Data.List.Sort

/-!
# Stable ranking

A list is ranked by a key when it is sorted by it and elements of one key keep their order.
-/
namespace SrvBackup.Storage

variable {α β : Type*} [LinearOrder β]

/-- `ys` is `xs` in ascending order of the keys, with equal keys in the order of `xs`. -/
structure Ranked (key : α → β) (xs ys : List α) : Prop where
  perm : ys.Perm xs
  ascending : ys.Pairwise fun x y => key x ≤ key y
  stable : ∀ k, ys.filter (fun x => key x = k) = xs.filter fun x => key x = k

variable {key : α → β} {xs ys before after : List α} {x y : α}

/-- An element inserted before the first one that is not smaller stays in front of its equals. -/
theorem filter_orderedInsert (x : α) (ys : List α) (k : β) :
    (ys.orderedInsert (fun x y => key x ≤ key y) x).filter (fun x => key x = k) =
      (x :: ys).filter fun x => key x = k := by
  induction ys with
  | nil => rfl
  | cons y ys ih =>
    rw [List.orderedInsert]
    split
    case isTrue => rfl
    case isFalse hless =>
      have hne : ¬ (key x = k ∧ key y = k) := by
        rintro ⟨hx, hy⟩
        exact hless (hx.trans hy.symm).le
      rw [List.filter_cons, ih, List.filter_cons, List.filter_cons, List.filter_cons]
      by_cases hx : key x = k
      · have hy : ¬ key y = k := fun hy => hne ⟨hx, hy⟩
        simp [hx, hy]
      · simp [hx]

theorem ranked_insertionSort (key : α → β) (xs : List α) :
    Ranked key xs (xs.insertionSort fun x y => key x ≤ key y) where
  perm := List.perm_insertionSort _ xs
  ascending := List.pairwise_insertionSort _ xs
  stable k := by
    induction xs with
    | nil => rfl
    | cons x xs ih =>
      rw [List.insertionSort_cons, filter_orderedInsert, List.filter_cons, ih, List.filter_cons]

namespace Ranked

/-- Where the keys are distinct, they ascend strictly. -/
theorem strict (h : Ranked key xs ys) (hkeys : (xs.map key).Nodup) :
    (ys.map key).Pairwise (· < ·) := by
  have hnodup : (ys.map key).Nodup := (h.perm.map key).nodup_iff.mpr hkeys
  have hle : (ys.map key).Pairwise (· ≤ ·) := List.pairwise_map.mpr h.ascending
  exact (hle.and hnodup).imp fun hxy => lt_of_le_of_ne hxy.1 hxy.2

/-- Then the elements before one are those with smaller keys. -/
theorem mem_before_iff (h : Ranked key xs ys) (hkeys : (xs.map key).Nodup)
    (hys : ys = before ++ y :: after) : x ∈ before ↔ x ∈ xs ∧ key x < key y := by
  subst hys
  obtain ⟨-, hafter, hbefore⟩ := List.pairwise_append.mp (List.pairwise_map.mp (h.strict hkeys))
  constructor
  · intro hx
    exact ⟨h.perm.subset (List.mem_append_left _ hx), hbefore x hx y List.mem_cons_self⟩
  · rintro ⟨hx, hless⟩
    rcases List.mem_append.mp (h.perm.mem_iff.mpr hx) with hx | hx
    · exact hx
    rcases List.mem_cons.mp hx with rfl | hx
    · exact absurd hless (lt_irrefl _)
    · exact absurd hless (List.rel_of_pairwise_cons hafter hx).asymm

end Ranked

end SrvBackup.Storage
