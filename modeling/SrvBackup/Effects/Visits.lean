import SrvBackup.Effects.Program

/-!
# The states that a run goes through

A run can be cut off at any operation. `Program.Always` says that a property holds in every state
that a run goes through, so that it holds wherever the run is cut off. Its rules follow the shape
of the program, as the rules for `run` do.

A run can be watched through a view of the state. `Performs.run_view` and `Performs.always_view`
say that a handler which acts on the view as another one does has the same runs there.
-/
namespace SrvBackup.Effects.Program

variable {E : Signature} {ε α β σ τ : Type}

/-- Every state of the run from `s` satisfies `I`, the first and the last one included. -/
def Always (h : Handler E σ) (I : σ → Prop) : Program E ε α → σ → Prop
  | .ret _, s => I s
  | .raise _, s => I s
  | .op o next, s => I s ∧ (next (h o s).1).Always h I (h o s).2

namespace Always

variable {h : Handler E σ} {I J : σ → Prop} {s : σ}

theorem start {p : Program E ε α} (hp : p.Always h I s) : I s := by
  cases p with
  | ret a => exact hp
  | raise e => exact hp
  | op o next => exact hp.1

theorem final {p : Program E ε α} (hp : p.Always h I s) : I (p.run h s).2 := by
  induction p generalizing s with
  | ret a => exact hp
  | raise e => exact hp
  | op o next ih => exact ih _ hp.2

theorem mono (hIJ : ∀ t, I t → J t) {p : Program E ε α} (hp : p.Always h I s) :
    p.Always h J s := by
  induction p generalizing s with
  | ret a => exact hIJ s hp
  | raise e => exact hIJ s hp
  | op o next ih => exact ⟨hIJ s hp.1, ih _ hp.2⟩

/-- The second program is only reached with a value of the first and in the state it left. -/
theorem bind {p : Program E ε α} {f : α → Program E ε β} (hp : p.Always h I s)
    (hf : ∀ a t, p.run h s = (.ok a, t) → (f a).Always h I t) : (p.bind f).Always h I s := by
  induction p generalizing s with
  | ret a => exact hf a s rfl
  | raise e => exact hp
  | op o next ih => exact ⟨hp.1, ih _ hp.2 hf⟩

theorem bind_ret {p : Program E ε α} (hp : p.Always h I s) (f : α → β) :
    (p.bind fun a => .ret (f a)).Always h I s := by
  refine hp.bind fun a t ht => ?_
  have hfinal := hp.final
  rwa [ht] at hfinal

theorem handle {p : Program E ε α} {f : ε → Program E ε α} (hp : p.Always h I s)
    (hf : ∀ e t, p.run h s = (.error e, t) → (f e).Always h I t) : (p.handle f).Always h I s := by
  induction p generalizing s with
  | ret a => exact hp
  | raise e => exact hf e s rfl
  | op o next ih => exact ⟨hp.1, ih _ hp.2 hf⟩

end Always

/-- A property that every operation in the footprint keeps holds all along. -/
theorem Performs.always {P : E.Op → Prop} {h : Handler E σ} {I : σ → Prop}
    (hstep : ∀ o s, P o → I s → I (h o s).2) {p : Program E ε α} (hp : p.Performs P) {s : σ}
    (hs : I s) : p.Always h I s := by
  induction p generalizing s with
  | ret a => exact hs
  | raise e => exact hs
  | op o next ih => exact ⟨hs, ih _ (hp.2 _) (hstep o s hp.1 hs)⟩

/-- A run comes to one of the ends of the program. -/
theorem Ends.run {Q : Except ε α → Prop} {p : Program E ε α} (hp : p.Ends Q) (h : Handler E σ)
    (s : σ) : Q (p.run h s).1 := by
  induction p generalizing s with
  | ret a => exact hp
  | raise e => exact hp
  | op o next ih => exact ih _ (hp _) _

theorem ends_true (p : Program E ε α) : p.Ends fun _ => True := by
  induction p with
  | ret a => trivial
  | raise e => trivial
  | op o next ih => exact ih

theorem Ends.mono {Q R : Except ε α → Prop} (hQR : ∀ r, Q r → R r) {p : Program E ε α}
    (hp : p.Ends Q) : p.Ends R := by
  induction p with
  | ret a => exact hQR _ hp
  | raise e => exact hQR _ hp
  | op o next ih => exact fun x => ih x (hp x)

theorem Ends.bind {Q : Except ε α → Prop} {R : Except ε β → Prop} {p : Program E ε α}
    {f : α → Program E ε β} (hp : p.Ends Q) (hok : ∀ a, Q (.ok a) → (f a).Ends R)
    (herror : ∀ e, Q (.error e) → R (.error e)) : (p.bind f).Ends R := by
  induction p with
  | ret a => exact hok a hp
  | raise e => exact herror e hp
  | op o next ih => exact fun x => ih x (hp x)

theorem Ends.handle {Q R : Except ε α → Prop} {p : Program E ε α} {f : ε → Program E ε α}
    (hp : p.Ends Q) (hok : ∀ a, Q (.ok a) → R (.ok a)) (herror : ∀ e, Q (.error e) → (f e).Ends R) :
    (p.handle f).Ends R := by
  induction p with
  | ret a => exact hok a hp
  | raise e => exact herror e hp
  | op o next ih => exact fun x => ih x (hp x)

/-! ## Views -/

section View

variable {P : E.Op → Prop} {h : Handler E σ} {g : Handler E τ} {v : σ → τ}

theorem Performs.run_view
    (hsim : ∀ o s, P o → (h o s).1 = (g o (v s)).1 ∧ v (h o s).2 = (g o (v s)).2)
    {p : Program E ε α} (hp : p.Performs P) (s : σ) :
    (p.run h s).1 = (p.run g (v s)).1 ∧ v (p.run h s).2 = (p.run g (v s)).2 := by
  induction p generalizing s with
  | ret a => exact ⟨rfl, rfl⟩
  | raise e => exact ⟨rfl, rfl⟩
  | op o next ih =>
    obtain ⟨hanswer, hview⟩ := hsim o s hp.1
    rw [run_op, run_op, ← hanswer, ← hview]
    exact ih _ (hp.2 _) _

theorem Performs.always_view
    (hsim : ∀ o s, P o → (h o s).1 = (g o (v s)).1 ∧ v (h o s).2 = (g o (v s)).2)
    {I : τ → Prop} {p : Program E ε α} (hp : p.Performs P) (s : σ) :
    p.Always h (fun t => I (v t)) s ↔ p.Always g I (v s) := by
  induction p generalizing s with
  | ret a => exact Iff.rfl
  | raise e => exact Iff.rfl
  | op o next ih =>
    obtain ⟨hanswer, hview⟩ := hsim o s hp.1
    rw [Always, Always, ← hanswer, ← hview]
    exact and_congr_right fun _ => ih _ (hp.2 _) _

end View

end SrvBackup.Effects.Program
