import SrvBackup.Effects.Interleaving
import SrvBackup.Effects.Visits
import Mathlib.Data.DFinsupp.WellFounded

/-!
# Pools that run to their end

A pool with at least one worker never gets stuck before its end (`Pool.exists_step`), and no
schedule goes on for ever (`Pool.wellFounded_step`), so every pool that is reached can be brought
to its end (`Pool.exists_complete`).

For isolated programs, `Isolated.end_final` gives the end of each of them in a finished pool, and
`Isolated.always` carries a property of every state of a program's own run to every pool that is
reached.
-/
namespace SrvBackup.Effects

variable {E : Signature} {ε α σ : Type} {n : Nat}

namespace Program

/-- `p` is what is left of `q` after its next operation. -/
def Next (p q : Program E ε α) : Prop := ∃ o next, q = .op o next ∧ ∃ x, p = next x

theorem wellFounded_next : WellFounded (Next : Program E ε α → Program E ε α → Prop) := by
  refine ⟨fun p => ?_⟩
  induction p with
  | ret a => exact ⟨_, fun _ ⟨_, _, h, _⟩ => by cases h⟩
  | raise e => exact ⟨_, fun _ ⟨_, _, h, _⟩ => by cases h⟩
  | op o next ih =>
    refine ⟨_, ?_⟩
    rintro _ ⟨_, _, h, x, rfl⟩
    cases h
    exact ih x

theorem exists_op_of_not_done {p : Program E ε α} (hp : ¬ p.Done) :
    ∃ o next, p = .op o next := by
  cases p with
  | ret a => exact absurd trivial hp
  | raise e => exact absurd trivial hp
  | op o next => exact ⟨o, next, rfl⟩

theorem run_of_end? {p : Program E ε α} {r : Except ε α} (hr : p.end? = some r)
    (h : Handler E σ) (s : σ) : p.run h s = (r, s) := by
  cases p with
  | ret a => cases hr; rfl
  | raise e => cases hr; rfl
  | op o next => cases hr

end Program

namespace Pool

variable {h : Fin n → Handler E σ} {width : Nat}

/-- What gets smaller with every step: the programs to start, then what is left of each. -/
def left (c : Pool E ε α σ n) : Nat × (Fin n → Program E ε α) := (n - c.started, c.thread)

/-- No schedule goes on for ever. -/
theorem wellFounded_step :
    WellFounded fun d c : Pool E ε α σ n => Step h width c d := by
  have hthreads : WellFounded (Pi.Lex (· < · : Fin n → Fin n → Prop)
      fun {_} => (Program.Next : Program E ε α → Program E ε α → Prop)) :=
    Pi.Lex.wellFounded _ fun _ => Program.wellFounded_next
  refine Subrelation.wf ?_ (InvImage.wf left (WellFounded.prod_lex Nat.lt_wfRel.wf hthreads))
  intro d c step
  cases step with
  | start hlt _ => exact Prod.Lex.left _ _ (Nat.sub_succ_lt_self _ _ hlt)
  | act i _ hop =>
    refine Prod.Lex.right _ ⟨i, fun j hj => thread_advance_of_ne c hj.ne _ _, ?_⟩
    rw [thread_advance_self]
    exact ⟨_, _, hop, _, rfl⟩

/-- With a worker, a pool that has not come to its end can go on. -/
theorem exists_step (hwidth : 0 < width) {c : Pool E ε α σ n} (hstarted : c.started ≤ n)
    (hopen : ¬ c.Complete) : ∃ d, Step h width c d := by
  by_cases hactive : ∃ i, c.Active i
  · obtain ⟨i, hi, hdone⟩ := hactive
    obtain ⟨o, next, hop⟩ := Program.exists_op_of_not_done hdone
    exact ⟨_, .act i hi hop⟩
  have hidle : c.busy = 0 :=
    Finset.card_eq_zero.mpr (Finset.filter_eq_empty_iff.mpr fun i _ hi => hactive ⟨i, hi⟩)
  by_cases hlt : c.started < n
  · exact ⟨_, .start hlt (hidle ▸ hwidth)⟩
  refine absurd ⟨by omega, fun i => ?_⟩ hopen
  by_contra hdone
  exact hactive ⟨i, by omega, hdone⟩

theorem Step.started_le {c d : Pool E ε α σ n} (step : Step h width c d) (hc : c.started ≤ n) :
    d.started ≤ n := by
  cases step with
  | start hlt _ => exact hlt
  | act _ _ _ => exact hc

/-- Every pool that is reached can be brought to its end. -/
theorem exists_complete (hwidth : 0 < width) {c : Pool E ε α σ n} (hstarted : c.started ≤ n) :
    ∃ d, Reaches h width c d ∧ d.Complete := by
  have hwf : WellFounded fun d c : Pool E ε α σ n => Step h width c d := wellFounded_step
  induction c using hwf.induction with
  | h c ih =>
    by_cases hdone : c.Complete
    · exact ⟨c, .refl, hdone⟩
    obtain ⟨d, step⟩ := exists_step (h := h) hwidth hstarted hdone
    obtain ⟨e, hde, he⟩ := ih d step (step.started_le hstarted)
    exact ⟨e, .head step hde, he⟩

theorem Reaches.started_le {c d : Pool E ε α σ n} (hcd : Reaches h width c d)
    (hc : c.started ≤ n) : d.started ≤ n :=
  hcd.preserves (I := fun c => c.started ≤ n) (fun step hc => step.started_le hc) hc

end Pool

namespace Isolated

variable {V : Type} {h : Fin n → Handler E σ} {P : Fin n → E.Op → Prop}
  {view : Fin n → σ → V} {solo : Fin n → Handler E V}

/-- In a finished pool every program has come to the end, and left the view, that it comes to
when it runs by itself from the first state. -/
theorem end_final (iso : Isolated h P view solo) {width : Nat} {c d : Pool E ε α σ n}
    (hcd : Pool.Reaches h width c d) (hc : ∀ i, (c.thread i).Performs (P i)) (hd : d.Complete)
    (i : Fin n) :
    (d.thread i).end? = some ((c.thread i).run (h i) c.shared).1 ∧
      view i d.shared = view i ((c.thread i).run (h i) c.shared).2 := by
  obtain ⟨hend, hview⟩ := (hc i).run_view (iso.own i) c.shared
  obtain ⟨r, hr⟩ := Program.exists_end? (hd.2 i)
  have hrun := iso.run_residual hcd hc i
  rw [Program.run_of_end? hr] at hrun
  rw [hr, hend, hview, ← hrun]
  exact ⟨rfl, rfl⟩

/-- What holds all along the run of a program by itself holds in every pool that is reached. -/
theorem always (iso : Isolated h P view solo) {width : Nat} {c d : Pool E ε α σ n}
    (hcd : Pool.Reaches h width c d) (hc : ∀ i, (c.thread i).Performs (P i)) {i : Fin n}
    {I : V → Prop} (hI : (c.thread i).Always (h i) (fun s => I (view i s)) c.shared) :
    I (view i d.shared) := by
  rw [(hc i).always_view (iso.own i)] at hI
  have hinv : (∀ j, (d.thread j).Performs (P j)) ∧
      (d.thread i).Always (solo i) I (view i d.shared) := by
    refine hcd.preserves (I := fun d => (∀ j, (d.thread j).Performs (P j)) ∧
      (d.thread i).Always (solo i) I (view i d.shared)) ?_ ⟨hc, hI⟩
    rintro d e step ⟨hperf, hI⟩
    cases step with
    | start _ _ => exact ⟨hperf, hI⟩
    | act j _ hop =>
      have hj := hperf j
      rw [hop] at hj
      obtain ⟨hanswer, hview⟩ := iso.own j _ d.shared hj.1
      refine ⟨Pool.forall_thread_advance hperf (hj.2 _) _, ?_⟩
      by_cases hij : i = j
      · subst hij
        rw [hop] at hI
        rw [Pool.thread_advance_self, Pool.shared_advance, hanswer, hview]
        exact hI.2
      · rwa [Pool.thread_advance_of_ne d hij, Pool.shared_advance, iso.other j i _ _ hij hj.1]
  exact hinv.2.start

end Isolated

end SrvBackup.Effects
