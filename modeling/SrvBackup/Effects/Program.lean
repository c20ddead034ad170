import Mathlib.Logic.Basic
import Mathlib.Tactic.Common

/-!
# Effectful programs and their sequential runs

A `Program` is a tree of operations over an effect signature. It is pure data: what an
operation does is fixed by the handler it is run with, so one program has a sequential run
(`Program.run`), an interleaved one (`Interleaving.lean`) and a syntactic footprint
(`Performs`), and all three speak about the same tree.

`handle` is `try/except`, `finallyDo` is `try/finally`. The `run_*` rules say how a run goes
through each of them; clients compose these and never unfold a run.
-/
namespace SrvBackup.Effects

/-- Operations, and the type of the answer each of them gets. -/
structure Signature where
  Op : Type
  Answer : Op → Type

/-- A program over `E` that returns an `α` or raises an `ε`. -/
inductive Program (E : Signature) (ε α : Type) where
  | ret (a : α)
  | raise (e : ε)
  | op (o : E.Op) (next : E.Answer o → Program E ε α)

/-- A handler answers an operation and moves the state. -/
abbrev Handler (E : Signature) (σ : Type) := (o : E.Op) → σ → E.Answer o × σ

namespace Program

variable {E : Signature} {ε α β γ σ : Type}

def bind : Program E ε α → (α → Program E ε β) → Program E ε β
  | .ret a, f => f a
  | .raise e, _ => .raise e
  | .op o next, f => .op o fun x => (next x).bind f

instance : Monad (Program E ε) where
  pure := .ret
  bind := bind

/-- `try p except e: f e`. -/
def handle : Program E ε α → (ε → Program E ε α) → Program E ε α
  | .ret a, _ => .ret a
  | .raise e, f => f e
  | .op o next, f => .op o fun x => (next x).handle f

/-- `try p finally last`: an exception of `last` replaces the outcome of `p`. -/
def finallyDo : Program E ε α → Program E ε Unit → Program E ε α
  | .ret a, last => last.bind fun _ => .ret a
  | .raise e, last => last.bind fun _ => .raise e
  | .op o next, last => .op o fun x => (next x).finallyDo last

def perform (o : E.Op) : Program E ε (E.Answer o) := .op o .ret

def ofExcept : Except ε α → Program E ε α
  | .ok a => .ret a
  | .error e => .raise e

/-- `for x in xs: f x`. -/
def forEach : List β → (β → Program E ε Unit) → Program E ε Unit
  | [], _ => .ret ()
  | x :: xs, f => (f x).bind fun _ => forEach xs f

/-- The members of `xs` on which the effectful test `p` says yes, in order. -/
def keepIf (p : β → Program E ε Bool) : List β → Program E ε (List β)
  | [] => .ret []
  | x :: xs => (p x).bind fun b => (keepIf p xs).bind fun ys => .ret (if b then x :: ys else ys)

/-- No operation is left to perform. -/
def Done : Program E ε α → Prop
  | .op _ _ => False
  | _ => True

instance (p : Program E ε α) : Decidable p.Done := by
  cases p <;> unfold Done <;> infer_instance

/-- The operation that the program performs next. -/
def next? : Program E ε α → Option E.Op
  | .op o _ => some o
  | _ => none

@[simp] theorem bind_eq (p : Program E ε α) (f : α → Program E ε β) : (p >>= f) = p.bind f := rfl

@[simp] theorem pure_eq (a : α) : (pure a : Program E ε α) = .ret a := rfl

@[simp] theorem bind_ret (a : α) (f : α → Program E ε β) :
    (Program.ret a : Program E ε α).bind f = f a := rfl

theorem bind_assoc (p : Program E ε α) (f : α → Program E ε β) (g : β → Program E ε γ) :
    (p.bind f).bind g = p.bind fun a => (f a).bind g := by
  induction p with
  | ret a => rfl
  | raise e => rfl
  | op o next ih => exact congrArg (Program.op o) (funext fun x => ih x)

/-! ## Sequential runs -/

def run (h : Handler E σ) : Program E ε α → σ → Except ε α × σ
  | .ret a, s => (.ok a, s)
  | .raise e, s => (.error e, s)
  | .op o next, s => (next (h o s).1).run h (h o s).2

@[simp] theorem run_ret (h : Handler E σ) (a : α) (s : σ) :
    (.ret a : Program E ε α).run h s = (.ok a, s) := rfl

@[simp] theorem run_raise (h : Handler E σ) (e : ε) (s : σ) :
    (.raise e : Program E ε α).run h s = (.error e, s) := rfl

@[simp] theorem run_op (h : Handler E σ) (o : E.Op) (next : E.Answer o → Program E ε α) (s : σ) :
    (Program.op o next).run h s = (next (h o s).1).run h (h o s).2 := rfl

@[simp] theorem run_perform (h : Handler E σ) (o : E.Op) (s : σ) :
    (perform o : Program E ε _).run h s = (.ok (h o s).1, (h o s).2) := rfl

@[simp] theorem run_ofExcept (h : Handler E σ) (x : Except ε α) (s : σ) :
    (ofExcept x : Program E ε α).run h s = (x, s) := by
  cases x <;> rfl

theorem run_bind (h : Handler E σ) (p : Program E ε α) (f : α → Program E ε β) (s : σ) :
    (p.bind f).run h s =
      match p.run h s with
      | (.ok a, t) => (f a).run h t
      | (.error e, t) => (.error e, t) := by
  induction p generalizing s with
  | ret a => rfl
  | raise e => rfl
  | op o next ih => exact ih _ _

theorem run_bind_ok {h : Handler E σ} {p : Program E ε α} {s t : σ} {a : α}
    (hp : p.run h s = (.ok a, t)) (f : α → Program E ε β) :
    (p.bind f).run h s = (f a).run h t := by
  rw [run_bind, hp]

theorem run_bind_error {h : Handler E σ} {p : Program E ε α} {s t : σ} {e : ε}
    (hp : p.run h s = (.error e, t)) (f : α → Program E ε β) :
    (p.bind f).run h s = (.error e, t) := by
  rw [run_bind, hp]

theorem run_handle (h : Handler E σ) (p : Program E ε α) (f : ε → Program E ε α) (s : σ) :
    (p.handle f).run h s =
      match p.run h s with
      | (.ok a, t) => (.ok a, t)
      | (.error e, t) => (f e).run h t := by
  induction p generalizing s with
  | ret a => rfl
  | raise e => rfl
  | op o next ih => exact ih _ _

theorem run_finallyDo (h : Handler E σ) (p : Program E ε α) (last : Program E ε Unit) (s : σ) :
    (p.finallyDo last).run h s =
      match last.run h (p.run h s).2 with
      | (.ok _, t) => ((p.run h s).1, t)
      | (.error e, t) => (.error e, t) := by
  induction p generalizing s with
  | ret a =>
    simp only [finallyDo, run_bind, run_ret]
    rcases last.run h s with ⟨_ | _, t⟩ <;> rfl
  | raise e =>
    simp only [finallyDo, run_bind, run_raise]
    rcases last.run h s with ⟨_ | _, t⟩ <;> rfl
  | op o next ih => exact ih _ _

/-- A normal return of a sequence splits it at the intermediate state. -/
theorem run_bind_eq_ok {h : Handler E σ} {p : Program E ε α} {f : α → Program E ε β} {s t : σ}
    {b : β} (hb : (p.bind f).run h s = (.ok b, t)) :
    ∃ a u, p.run h s = (.ok a, u) ∧ (f a).run h u = (.ok b, t) := by
  rw [run_bind] at hb
  cases hp : p.run h s with
  | mk r u =>
    rw [hp] at hb
    cases r with
    | ok a => exact ⟨a, u, rfl, hb⟩
    | error e => simp at hb

/-! ## Footprints -/

/-- Every operation the program can reach satisfies `P`, whatever answers it gets. -/
def Performs (P : E.Op → Prop) : Program E ε α → Prop
  | .ret _ => True
  | .raise _ => True
  | .op o next => P o ∧ ∀ x, (next x).Performs P

/-- Every end that the program can come to satisfies `Q`, whatever answers it gets. -/
def Ends (Q : Except ε α → Prop) : Program E ε α → Prop
  | .ret a => Q (.ok a)
  | .raise e => Q (.error e)
  | .op _ next => ∀ x, (next x).Ends Q

/-- Every value that the program can return satisfies `Q`. -/
def Returns (Q : α → Prop) (p : Program E ε α) : Prop := p.Ends fun r => ∀ a, r = .ok a → Q a

/-- The end that a finished program has come to. -/
def end? : Program E ε α → Option (Except ε α)
  | .ret a => some (.ok a)
  | .raise e => some (.error e)
  | .op _ _ => none

theorem exists_end? {p : Program E ε α} (hp : p.Done) : ∃ r, p.end? = some r := by
  cases p with
  | ret a => exact ⟨_, rfl⟩
  | raise e => exact ⟨_, rfl⟩
  | op o next => exact hp.elim

theorem Ends.of_end? {Q : Except ε α → Prop} {p : Program E ε α} (hp : p.Ends Q)
    {r : Except ε α} (hr : p.end? = some r) : Q r := by
  cases p with
  | ret a => cases hr; exact hp
  | raise e => cases hr; exact hp
  | op o next => cases hr

section Footprint

variable {P : E.Op → Prop}

@[simp] theorem performs_ret (a : α) : (.ret a : Program E ε α).Performs P := trivial

@[simp] theorem performs_raise (e : ε) : (.raise e : Program E ε α).Performs P := trivial

@[simp] theorem performs_ofExcept (x : Except ε α) : (ofExcept x : Program E ε α).Performs P := by
  cases x <;> trivial

theorem Performs.mono {Q : E.Op → Prop} (hPQ : ∀ o, P o → Q o) {p : Program E ε α}
    (hp : p.Performs P) : p.Performs Q := by
  induction p with
  | ret a => trivial
  | raise e => trivial
  | op o next ih => exact ⟨hPQ o hp.1, fun x => ih x (hp.2 x)⟩

theorem performs_true (p : Program E ε α) : p.Performs fun _ => True := by
  induction p with
  | ret a => trivial
  | raise e => trivial
  | op o next ih => exact ⟨trivial, ih⟩

theorem Performs.of_next? {p : Program E ε α} (hp : p.Performs P) {o : E.Op}
    (ho : p.next? = some o) : P o ∧ ¬ p.Done := by
  cases p with
  | ret a => cases ho
  | raise e => cases ho
  | op o next =>
    cases ho
    exact ⟨hp.1, id⟩

theorem returns_true (p : Program E ε α) : p.Returns fun _ => True := by
  induction p with
  | ret a => exact fun _ _ => trivial
  | raise e => exact fun _ _ => trivial
  | op o next ih => exact ih

theorem Returns.bind {Q : α → Prop} {R : β → Prop} {p : Program E ε α} {f : α → Program E ε β}
    (hp : p.Returns Q) (hf : ∀ a, Q a → (f a).Returns R) : (p.bind f).Returns R := by
  induction p with
  | ret a => exact hf a (hp a rfl)
  | raise e => exact fun _ h => by cases h
  | op o next ih => exact fun x => ih x (hp x)

theorem returns_ret {Q : α → Prop} {a : α} (ha : Q a) : (.ret a : Program E ε α).Returns Q :=
  fun _ h => Except.ok.inj h ▸ ha

/-- What is kept is a part of the list, in its order. -/
theorem keepIf_returns (p : β → Program E ε Bool) (xs : List β) :
    (keepIf p xs).Returns fun ys => ys.Sublist xs := by
  induction xs with
  | nil => exact returns_ret (.refl [])
  | cons x xs ih =>
    refine (returns_true _).bind fun b _ => ih.bind fun ys hys => returns_ret ?_
    cases b with
    | false => exact hys.cons x
    | true => exact hys.cons_cons x

/-- In sequence, the second program only meets the values that the first can return. -/
theorem Performs.bind_of_returns {Q : α → Prop} {p : Program E ε α} {f : α → Program E ε β}
    (hp : p.Performs P) (hQ : p.Returns Q) (hf : ∀ a, Q a → (f a).Performs P) :
    (p.bind f).Performs P := by
  induction p with
  | ret a => exact hf a (hQ a rfl)
  | raise e => trivial
  | op o next ih => exact ⟨hp.1, fun x => ih x (hp.2 x) (hQ x)⟩

theorem Performs.bind {p : Program E ε α} {f : α → Program E ε β}
    (hp : p.Performs P) (hf : ∀ a, (f a).Performs P) : (p.bind f).Performs P :=
  hp.bind_of_returns (returns_true p) fun a _ => hf a

theorem Performs.handle {p : Program E ε α} {f : ε → Program E ε α}
    (hp : p.Performs P) (hf : ∀ e, (f e).Performs P) : (p.handle f).Performs P := by
  induction p with
  | ret a => trivial
  | raise e => exact hf e
  | op o next ih => exact ⟨hp.1, fun x => ih x (hp.2 x)⟩

theorem Performs.finallyDo {p : Program E ε α} {last : Program E ε Unit}
    (hp : p.Performs P) (hl : last.Performs P) : (p.finallyDo last).Performs P := by
  induction p with
  | ret a => exact hl.bind fun _ => trivial
  | raise e => exact hl.bind fun _ => trivial
  | op o next ih => exact ⟨hp.1, fun x => ih x (hp.2 x)⟩

theorem performs_forEach {xs : List β} {f : β → Program E ε Unit}
    (hf : ∀ x ∈ xs, (f x).Performs P) : (forEach xs f).Performs P := by
  induction xs with
  | nil => trivial
  | cons x xs ih =>
    exact (hf x (by simp)).bind fun _ => ih fun y hy => hf y (by simp [hy])

theorem performs_keepIf {xs : List β} {p : β → Program E ε Bool}
    (hp : ∀ x ∈ xs, (p x).Performs P) : (keepIf p xs).Performs P := by
  induction xs with
  | nil => trivial
  | cons x xs ih =>
    exact (hp x (by simp)).bind fun _ =>
      (ih fun y hy => hp y (by simp [hy])).bind fun _ => trivial

/-- A run keeps every property of the state that each operation in the footprint keeps. -/
theorem Performs.run_preserves {h : Handler E σ} {I : σ → Prop}
    (hstep : ∀ o s, P o → I s → I (h o s).2) {p : Program E ε α} (hp : p.Performs P) {s : σ}
    (hs : I s) : I (p.run h s).2 := by
  induction p generalizing s with
  | ret a => exact hs
  | raise e => exact hs
  | op o next ih => exact ih _ (hp.2 _) (hstep o s hp.1 hs)

end Footprint

end Program

end SrvBackup.Effects
