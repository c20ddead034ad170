import SrvBackup.Effects.Program
import Mathlib.Logic.Relation
import Mathlib.Data.Fintype.Basic
import Mathlib.Data.Fintype.Card

/-!
# Programs on a bounded pool of workers

`n` programs share a state. They are started in order, at most `width` of them are unfinished
at any time, and every operation of a started program is one step. Each program has its own
handler on the shared state.

`Isolated` describes programs that do not see each other: each has a view of the state that
only its own operations change and that decides their answers. `Isolated.view_final` is the
rule for them: in a finished pool every view is the one that the program alone would leave, so
the schedule and the width do not matter.
-/
namespace SrvBackup.Effects

variable {E : Signature} {ε α σ : Type} {n : Nat}

structure Pool (E : Signature) (ε α σ : Type) (n : Nat) where
  started : Nat
  thread : Fin n → Program E ε α
  shared : σ

namespace Pool

def initial (ps : Fin n → Program E ε α) (s : σ) : Pool E ε α σ n := ⟨0, ps, s⟩

/-- Program `i` is started and has an operation to perform. -/
def Active (c : Pool E ε α σ n) (i : Fin n) : Prop := i < c.started ∧ ¬(c.thread i).Done

instance (c : Pool E ε α σ n) (i : Fin n) : Decidable (c.Active i) := by
  unfold Active; infer_instance

/-- The number of busy workers. -/
def busy (c : Pool E ε α σ n) : Nat := (Finset.univ.filter c.Active).card

/-- The pool after program `i` went on to `p` and left the state `s`. -/
def advance (c : Pool E ε α σ n) (i : Fin n) (p : Program E ε α) (s : σ) : Pool E ε α σ n :=
  ⟨c.started, Function.update c.thread i p, s⟩

inductive Step (h : Fin n → Handler E σ) (width : Nat) :
    Pool E ε α σ n → Pool E ε α σ n → Prop where
  | start {c : Pool E ε α σ n} : c.started < n → c.busy < width →
      Step h width c { c with started := c.started + 1 }
  | act {c : Pool E ε α σ n} (i : Fin n) {o : E.Op} {next : E.Answer o → Program E ε α} :
      i < c.started → c.thread i = .op o next →
      Step h width c (c.advance i (next (h i o c.shared).1) (h i o c.shared).2)

abbrev Reaches (h : Fin n → Handler E σ) (width : Nat) :
    Pool E ε α σ n → Pool E ε α σ n → Prop := Relation.ReflTransGen (Step h width)

/-- Every program was started and has ended. -/
def Complete (c : Pool E ε α σ n) : Prop := c.started = n ∧ ∀ i, (c.thread i).Done

instance (c : Pool E ε α σ n) : Decidable c.Complete := by unfold Complete; infer_instance

@[simp] theorem thread_advance_self (c : Pool E ε α σ n) (i : Fin n) (p : Program E ε α) (s : σ) :
    (c.advance i p s).thread i = p := Function.update_self _ _ _

theorem thread_advance_of_ne (c : Pool E ε α σ n) {i j : Fin n} (hij : j ≠ i)
    (p : Program E ε α) (s : σ) : (c.advance i p s).thread j = c.thread j :=
  Function.update_of_ne hij _ _

/-- A property of all programs goes on to the pool in which one of them advanced. -/
theorem forall_thread_advance {T : Fin n → Program E ε α → Prop} {c : Pool E ε α σ n}
    (hc : ∀ i, T i (c.thread i)) {i : Fin n} {p : Program E ε α} (hp : T i p) (s : σ)
    (j : Fin n) : T j ((c.advance i p s).thread j) := by
  by_cases hij : j = i
  · subst hij
    rwa [thread_advance_self]
  · rw [thread_advance_of_ne c hij]
    exact hc j

@[simp] theorem shared_advance (c : Pool E ε α σ n) (i : Fin n) (p : Program E ε α) (s : σ) :
    (c.advance i p s).shared = s := rfl

@[simp] theorem started_advance (c : Pool E ε α σ n) (i : Fin n) (p : Program E ε α) (s : σ) :
    (c.advance i p s).started = c.started := rfl

/-- What every step keeps holds in every pool that is reached. -/
theorem Reaches.preserves {h : Fin n → Handler E σ} {width : Nat} {I : Pool E ε α σ n → Prop}
    (hstep : ∀ {c d}, Step h width c d → I c → I d) {c d : Pool E ε α σ n}
    (hcd : Reaches h width c d) (hc : I c) : I d := by
  induction hcd with
  | refl => exact hc
  | tail _ step ih => exact hstep step ih

/-- What every operation in the footprints keeps holds of the state of every pool that is
reached. -/
theorem Reaches.preserves_shared {h : Fin n → Handler E σ} {P : Fin n → E.Op → Prop}
    {J : σ → Prop} (hkeep : ∀ i o s, P i o → J s → J (h i o s).2) {width : Nat}
    {c d : Pool E ε α σ n} (hcd : Reaches h width c d) (hc : ∀ i, (c.thread i).Performs (P i))
    (hs : J c.shared) : (∀ i, (d.thread i).Performs (P i)) ∧ J d.shared := by
  refine hcd.preserves (I := fun d => (∀ i, (d.thread i).Performs (P i)) ∧ J d.shared) ?_ ⟨hc, hs⟩
  rintro d e step ⟨hperf, hJ⟩
  cases step with
  | start _ _ => exact ⟨hperf, hJ⟩
  | act j hj hop =>
    have hj := hperf j
    rw [hop] at hj
    exact ⟨forall_thread_advance hperf (hj.2 _) _, hkeep j _ _ hj.1 hJ⟩

/-- Whatever the schedule, a program comes to one of its ends. -/
theorem Reaches.preserves_ends {h : Fin n → Handler E σ} {Q : Fin n → Except ε α → Prop}
    {width : Nat} {c d : Pool E ε α σ n} (hcd : Reaches h width c d)
    (hc : ∀ i, (c.thread i).Ends (Q i)) (i : Fin n) : (d.thread i).Ends (Q i) := by
  refine hcd.preserves (I := fun d => ∀ i, (d.thread i).Ends (Q i)) ?_ hc i
  intro d e step hends
  cases step with
  | start _ _ => exact hends
  | act j hj hop =>
    have hj := hends j
    rw [hop] at hj
    exact forall_thread_advance hends (hj _) _

/-! ## Schedules -/

/-- One scheduling decision: start the next program, or let one perform its next operation. -/
inductive Move (n : Nat) where
  | start
  | act (i : Fin n)
  deriving DecidableEq, Repr

def move (h : Fin n → Handler E σ) (width : Nat) (c : Pool E ε α σ n) :
    Move n → Option (Pool E ε α σ n)
  | .start =>
    if c.started < n ∧ c.busy < width then some { c with started := c.started + 1 } else none
  | .act i =>
    match c.thread i with
    | .op o next =>
      if i < c.started then
        some (c.advance i (next (h i o c.shared).1) (h i o c.shared).2)
      else none
    | _ => none

/-- The pool after a schedule, if every decision in it is possible. -/
def follow (h : Fin n → Handler E σ) (width : Nat) (c : Pool E ε α σ n) (schedule : List (Move n)) :
    Option (Pool E ε α σ n) := schedule.foldlM (move h width) c

theorem step_of_move {h : Fin n → Handler E σ} {width : Nat} {c d : Pool E ε α σ n} {m : Move n}
    (hm : c.move h width m = some d) : Step h width c d := by
  cases m with
  | start =>
    simp only [move] at hm
    split at hm
    · next hc => cases hm; exact .start hc.1 hc.2
    · cases hm
  | act i =>
    simp only [move] at hm
    split at hm
    · next o next heq =>
      split at hm
      · next hi => cases hm; exact .act i hi heq
      · cases hm
    · cases hm

/-- Following a schedule reaches the pool it ends in. -/
theorem reaches_of_follow {h : Fin n → Handler E σ} {width : Nat} {c d : Pool E ε α σ n}
    {schedule : List (Move n)} (hd : c.follow h width schedule = some d) :
    Reaches h width c d := by
  induction schedule generalizing c with
  | nil => cases hd; exact .refl
  | cons m ms ih =>
    obtain ⟨e, he, hrest⟩ := Option.bind_eq_some_iff.mp hd
    exact .head (step_of_move he) (ih hrest)

/-! ## Busy workers -/

/-- Starting a program makes at most one worker busy. -/
theorem busy_start_le (c : Pool E ε α σ n) (hc : c.started < n) :
    ({ c with started := c.started + 1 } : Pool E ε α σ n).busy ≤ c.busy + 1 := by
  refine le_trans (Finset.card_le_card fun i hi => ?_)
    (Finset.card_insert_le (⟨c.started, hc⟩ : Fin n) _)
  obtain ⟨hlt, hopen⟩ := (Finset.mem_filter.mp hi).2
  simp only [Finset.mem_insert, Finset.mem_filter, Finset.mem_univ, true_and, Fin.ext_iff]
  by_cases hi : i < c.started
  · exact .inr ⟨hi, hopen⟩
  · exact .inl (by simp only at hlt ⊢; omega)

theorem busy_advance_le (c : Pool E ε α σ n) {i : Fin n} (hi : c.Active i) (p : Program E ε α)
    (s : σ) : (c.advance i p s).busy ≤ c.busy := by
  refine Finset.card_le_card fun j hj => ?_
  simp only [Finset.mem_filter, Finset.mem_univ, true_and] at hj ⊢
  by_cases hij : j = i
  · exact hij ▸ hi
  · simpa [Active, thread_advance_of_ne c hij] using hj

/-- There are never more busy workers than the pool has. -/
theorem Reaches.busy_le {h : Fin n → Handler E σ} {width : Nat} {c d : Pool E ε α σ n}
    (hcd : Reaches h width c d) (hc : c.busy ≤ width) : d.busy ≤ width := by
  refine hcd.preserves (I := fun c => c.busy ≤ width) ?_ hc
  intro c d step hc
  cases step with
  | start hlt hfree => exact (busy_start_le c hlt).trans hfree
  | act i hi hop => exact (busy_advance_le c ⟨hi, by simp [hop, Program.Done]⟩ _ _).trans hc

@[simp] theorem busy_initial (ps : Fin n → Program E ε α) (s : σ) :
    (initial ps s).busy = 0 :=
  Finset.card_eq_zero.mpr (Finset.filter_eq_empty_iff.mpr fun _ _ h => Nat.not_lt_zero _ h.1)

/-- With at most one busy worker there is at most one active program. -/
theorem eq_of_busy_le_one {c : Pool E ε α σ n} (hbusy : c.busy ≤ 1) {i j : Fin n}
    (hi : c.Active i) (hj : c.Active j) : i = j := by
  exact Finset.card_le_one.mp hbusy i (by simpa using hi) j (by simpa using hj)

end Pool

/-! ## Programs that do not see each other -/

/-- Program `i`, which performs operations in `P i` only, sees the state through `view i`. -/
structure Isolated {V : Type} (h : Fin n → Handler E σ) (P : Fin n → E.Op → Prop)
    (view : Fin n → σ → V) (solo : Fin n → Handler E V) : Prop where
  own : ∀ i o s, P i o →
    (h i o s).1 = (solo i o (view i s)).1 ∧ view i (h i o s).2 = (solo i o (view i s)).2
  other : ∀ i j o s, j ≠ i → P i o → view j (h i o s).2 = view j s

namespace Isolated

variable {V : Type} {h : Fin n → Handler E σ} {P : Fin n → E.Op → Prop}
  {view : Fin n → σ → V} {solo : Fin n → Handler E V}

/-- In every pool that is reached, what is left of a program has in its view the run that the
whole program has alone. -/
theorem run_residual (iso : Isolated h P view solo) {width : Nat} {c d : Pool E ε α σ n}
    (hcd : Pool.Reaches h width c d) (hc : ∀ i, (c.thread i).Performs (P i)) (i : Fin n) :
    (d.thread i).run (solo i) (view i d.shared) =
      (c.thread i).run (solo i) (view i c.shared) := by
  have hinv : (∀ i, (d.thread i).Performs (P i)) ∧
      ∀ i, (d.thread i).run (solo i) (view i d.shared) =
        (c.thread i).run (solo i) (view i c.shared) := by
    refine hcd.preserves (I := fun d => (∀ i, (d.thread i).Performs (P i)) ∧
      ∀ i, (d.thread i).run (solo i) (view i d.shared) =
        (c.thread i).run (solo i) (view i c.shared)) ?_ ⟨hc, fun _ => rfl⟩
    rintro d e step ⟨hperf, hrun⟩
    cases step with
    | start _ _ => exact ⟨hperf, hrun⟩
    | act j hj hop =>
      have hj := hperf j
      rw [hop] at hj
      obtain ⟨hanswer, hview⟩ := iso.own j _ d.shared hj.1
      refine ⟨Pool.forall_thread_advance hperf (hj.2 _) _, fun i => ?_⟩
      rw [← hrun i]
      by_cases hij : i = j
      · subst hij
        rw [Pool.thread_advance_self, Pool.shared_advance, hop, Program.run_op, hanswer, hview]
      · rw [Pool.thread_advance_of_ne d hij, Pool.shared_advance, iso.other j i _ _ hij hj.1]
  exact hinv.2 i

/-- In a finished pool every view is the one that the program alone leaves. -/
theorem view_final (iso : Isolated h P view solo) {width : Nat} {c d : Pool E ε α σ n}
    (hcd : Pool.Reaches h width c d) (hc : ∀ i, (c.thread i).Performs (P i)) (hd : d.Complete)
    (i : Fin n) : view i d.shared = ((c.thread i).run (solo i) (view i c.shared)).2 := by
  rw [← iso.run_residual hcd hc i]
  have hdone := hd.2 i
  cases hp : d.thread i with
  | ret a => rfl
  | raise e => rfl
  | op o next =>
    rw [hp] at hdone
    exact hdone.elim

end Isolated

end SrvBackup.Effects
