import SrvBackup.Effects.Interleaving

/-!
# What a program relies on, and what it owes

`Program.Contract` is a footprint for a program that meets only answers of a certain kind: as long
as the answers are good, it performs good operations and comes to a good end.
`Pool.Reaches.preserves_contract` is the rule for a pool whose answers are good while an invariant
holds that the good operations keep.

A program that made something owes the operation that frees it. `Program.Repays` says that it
comes to perform what it owes, and `Custody.nothing_left` that a finished pool of such programs has
left nothing behind. `Custody.freed` is about programs that also free what they find.
-/
namespace SrvBackup.Effects

variable {E : Signature} {ε α β σ : Type}

namespace Program

/-! ## Contracts -/

/-- While the answers satisfy `A`, the operations satisfy `P` and the end satisfies `Q`. -/
def Contract (A : (o : E.Op) → E.Answer o → Prop) (P : E.Op → Prop) (Q : Except ε α → Prop) :
    Program E ε α → Prop
  | .ret a => Q (.ok a)
  | .raise e => Q (.error e)
  | .op o next => P o ∧ ∀ x, A o x → (next x).Contract A P Q

section Contract

variable {A : (o : E.Op) → E.Answer o → Prop} {P : E.Op → Prop}

theorem Performs.contract {p : Program E ε α} (hp : p.Performs P) :
    p.Contract A P fun _ => True := by
  induction p with
  | ret a => trivial
  | raise e => trivial
  | op o next ih => exact ⟨hp.1, fun x _ => ih x (hp.2 x)⟩

theorem Contract.bind {Q : Except ε α → Prop} {R : Except ε β → Prop} {p : Program E ε α}
    {f : α → Program E ε β} (hp : p.Contract A P Q)
    (hok : ∀ a, Q (.ok a) → (f a).Contract A P R) (herror : ∀ e, Q (.error e) → R (.error e)) :
    (p.bind f).Contract A P R := by
  induction p with
  | ret a => exact hok a hp
  | raise e => exact herror e hp
  | op o next ih => exact ⟨hp.1, fun x hx => ih x (hp.2 x hx)⟩

theorem Contract.handle {Q R : Except ε α → Prop} {p : Program E ε α} {f : ε → Program E ε α}
    (hp : p.Contract A P Q) (hok : ∀ a, Q (.ok a) → R (.ok a))
    (herror : ∀ e, Q (.error e) → (f e).Contract A P R) : (p.handle f).Contract A P R := by
  induction p with
  | ret a => exact hok a hp
  | raise e => exact herror e hp
  | op o next ih => exact ⟨hp.1, fun x hx => ih x (hp.2 x hx)⟩

end Contract

/-! ## Obligations -/

/-- Whatever answers it gets, the program comes to perform `o`. -/
def Owes (o : E.Op) : Program E ε α → Prop
  | .ret _ => False
  | .raise _ => False
  | .op o' next => o' = o ∨ ∀ x, (next x).Owes o

/-- An answer obliges to an operation, and the program comes to perform it. -/
def Repays (obliges : (o : E.Op) → E.Answer o → E.Op → Prop) : Program E ε α → Prop
  | .ret _ => True
  | .raise _ => True
  | .op o next => ∀ x, (∀ o', obliges o x o' → (next x).Owes o') ∧ (next x).Repays obliges

/-- Through operations in `P` the program comes to `o`, and an answer in `A` makes it owe `o'`. -/
def Announces (P : E.Op → Prop) (o : E.Op) (A : (o : E.Op) → E.Answer o → Prop) (o' : E.Op) :
    Program E ε α → Prop
  | .ret _ => False
  | .raise _ => False
  | .op q next => (q = o ∧ ∀ x, A q x → (next x).Owes o') ∨
      (P q ∧ ∀ x, (next x).Announces P o A o')

section Owes

variable {o : E.Op}

theorem Owes.not_done {p : Program E ε α} (hp : p.Owes o) : ¬ p.Done := by
  cases p with
  | ret a => exact hp.elim
  | raise e => exact hp.elim
  | op o' next => exact id

theorem Owes.bind {p : Program E ε α} (hp : p.Owes o) (f : α → Program E ε β) :
    (p.bind f).Owes o := by
  induction p with
  | ret a => exact hp.elim
  | raise e => exact hp.elim
  | op o' next ih => exact hp.imp_right fun h x => ih x (h x)

theorem Owes.handle {p : Program E ε α} (hp : p.Owes o) (f : ε → Program E ε α) :
    (p.handle f).Owes o := by
  induction p with
  | ret a => exact hp.elim
  | raise e => exact hp.elim
  | op o' next ih => exact hp.imp_right fun h x => ih x (h x)

/-- What stands in the `finally` clause is performed however the program ends. -/
theorem Owes.finally_clause {last : Program E ε Unit} (hlast : last.Owes o)
    (p : Program E ε α) : (p.finallyDo last).Owes o := by
  induction p with
  | ret a => exact hlast.bind _
  | raise e => exact hlast.bind _
  | op o' next ih => exact .inr ih

end Owes

section Repays

variable {obliges : (o : E.Op) → E.Answer o → E.Op → Prop}

/-- Operations that never oblige leave nothing to repay. -/
theorem Performs.repays {P : E.Op → Prop} (hP : ∀ o, P o → ∀ x o', ¬ obliges o x o')
    {p : Program E ε α} (hp : p.Performs P) : p.Repays obliges := by
  induction p with
  | ret a => trivial
  | raise e => trivial
  | op o next ih => exact fun x => ⟨fun o' h => absurd h (hP o hp.1 x o'), ih x (hp.2 x)⟩

theorem Repays.bind {p : Program E ε α} {f : α → Program E ε β} (hp : p.Repays obliges)
    (hf : ∀ a, (f a).Repays obliges) : (p.bind f).Repays obliges := by
  induction p with
  | ret a => exact hf a
  | raise e => trivial
  | op o next ih =>
    exact fun x => ⟨fun o' h => ((hp x).1 o' h).bind f, ih x (hp x).2⟩

theorem Repays.handle {p : Program E ε α} {f : ε → Program E ε α} (hp : p.Repays obliges)
    (hf : ∀ e, (f e).Repays obliges) : (p.handle f).Repays obliges := by
  induction p with
  | ret a => trivial
  | raise e => exact hf e
  | op o next ih =>
    exact fun x => ⟨fun o' h => ((hp x).1 o' h).handle f, ih x (hp x).2⟩

end Repays

section Announces

variable {P : E.Op → Prop} {o o' : E.Op} {A : (o : E.Op) → E.Answer o → Prop}

theorem Announces.not_done {p : Program E ε α} (hp : p.Announces P o A o') : ¬ p.Done := by
  cases p with
  | ret a => exact hp.elim
  | raise e => exact hp.elim
  | op q next => exact id

theorem Announces.bind {p : Program E ε α} (hp : p.Announces P o A o') (f : α → Program E ε β) :
    (p.bind f).Announces P o A o' := by
  induction p with
  | ret a => exact hp.elim
  | raise e => exact hp.elim
  | op q next ih =>
    exact hp.imp (fun h => ⟨h.1, fun x hx => (h.2 x hx).bind f⟩)
      fun h => ⟨h.1, fun x => ih x (h.2 x)⟩

theorem Announces.handle {p : Program E ε α} (hp : p.Announces P o A o')
    (f : ε → Program E ε α) : (p.handle f).Announces P o A o' := by
  induction p with
  | ret a => exact hp.elim
  | raise e => exact hp.elim
  | op q next ih =>
    exact hp.imp (fun h => ⟨h.1, fun x hx => (h.2 x hx).handle f⟩)
      fun h => ⟨h.1, fun x => ih x (h.2 x)⟩

end Announces

end Program

/-! ## Pools -/

namespace Pool.Reaches

variable {n : Nat} {h : Fin n → Handler E σ} {width : Nat} {c d : Pool E ε α σ n}
  {P : Fin n → E.Op → Prop}

/-- While the invariant holds the answers are good, and good operations keep it. -/
theorem preserves_contract {A : Fin n → (o : E.Op) → E.Answer o → Prop}
    {Q : Fin n → Except ε α → Prop} {J : σ → Prop}
    (hanswer : ∀ i o s, P i o → J s → A i o (h i o s).1)
    (hkeep : ∀ i o s, P i o → J s → J (h i o s).2) (hcd : Reaches h width c d)
    (hc : ∀ i, (c.thread i).Contract (A i) (P i) (Q i)) (hs : J c.shared) :
    (∀ i, (d.thread i).Contract (A i) (P i) (Q i)) ∧ J d.shared := by
  refine hcd.preserves (I := fun d => (∀ i, (d.thread i).Contract (A i) (P i) (Q i)) ∧ J d.shared)
    ?_ ⟨hc, hs⟩
  rintro d e step ⟨hcontract, hJ⟩
  cases step with
  | start _ _ => exact ⟨hcontract, hJ⟩
  | act j _ hop =>
    have hj := hcontract j
    rw [hop] at hj
    exact ⟨forall_thread_advance hcontract (hj.2 _ (hanswer j _ _ hj.1 hJ)) _,
      hkeep j _ _ hj.1 hJ⟩

end Pool.Reaches

/-- Operations in `P` make things only where the answer obliges to an operation that frees them. -/
structure Custody {n : Nat} {R : Type} (h : Fin n → Handler E σ) (P : Fin n → E.Op → Prop)
    (present : σ → R → Prop) (frees : Fin n → E.Op → R → Prop)
    (obliges : Fin n → (o : E.Op) → E.Answer o → E.Op → Prop) : Prop where
  make : ∀ i o s r, P i o → present (h i o s).2 r →
    present s r ∨ ∃ o', obliges i o (h i o s).1 o' ∧ frees i o' r
  free : ∀ i o s r, P i o → frees i o r → ¬ present (h i o s).2 r

section Custody

variable {n : Nat} {R : Type} {h : Fin n → Handler E σ} {P : Fin n → E.Op → Prop}
  {present : σ → R → Prop} {frees : Fin n → E.Op → R → Prop}
  {obliges : Fin n → (o : E.Op) → E.Answer o → E.Op → Prop} {width : Nat} {c d : Pool E ε α σ n}

/-- Some program owes an operation that frees `r`. -/
def Owed (frees : Fin n → E.Op → R → Prop) (c : Pool E ε α σ n) (r : R) : Prop :=
  ∃ i o, (c.thread i).Owes o ∧ frees i o r

theorem Owed.not_complete {r : R} (hr : Owed frees c r) : ¬ c.Complete := by
  obtain ⟨i, o, howes, -⟩ := hr
  exact fun hc => howes.not_done (hc.2 i)

/-- What is there and owed stays owed, until it is freed. -/
theorem Custody.step (custody : Custody h P present frees obliges) (step : Pool.Step h width c d)
    (hperf : ∀ i, (c.thread i).Performs (P i)) (hrepay : ∀ i, (c.thread i).Repays (obliges i)) :
    (∀ i, (d.thread i).Performs (P i)) ∧ (∀ i, (d.thread i).Repays (obliges i)) ∧
      ∀ r, (present c.shared r → Owed frees c r) → present d.shared r → Owed frees d r := by
  cases step with
  | start _ _ => exact ⟨hperf, hrepay, fun _ h => h⟩
  | @act j o next _ hop =>
    have hpj := hperf j
    have hrj := hrepay j
    rw [hop] at hpj hrj
    obtain ⟨hobliged, hrest⟩ := hrj (h j o c.shared).1
    refine ⟨Pool.forall_thread_advance hperf (hpj.2 _) _, Pool.forall_thread_advance hrepay hrest _,
      fun r howed hr => ?_⟩
    rcases custody.make j o c.shared r hpj.1 hr with hbefore | ⟨o', ho', hfrees⟩
    · obtain ⟨i, o', howes, hfrees⟩ := howed hbefore
      refine ⟨i, o', ?_, hfrees⟩
      by_cases hij : i = j
      · subst hij
        rw [hop] at howes
        rw [Pool.thread_advance_self]
        -- The operation that was owed may be the one that was just performed.
        rcases howes with rfl | howes
        · exact absurd hr (custody.free i o c.shared r hpj.1 hfrees)
        · exact howes _
      · rwa [Pool.thread_advance_of_ne c hij]
    · exact ⟨j, o', by rw [Pool.thread_advance_self]; exact hobliged o' ho', hfrees⟩

/-- What is there when a pool has finished was there at its start. -/
theorem Custody.nothing_left (custody : Custody h P present frees obliges)
    (hcd : Pool.Reaches h width c d) (hperf : ∀ i, (c.thread i).Performs (P i))
    (hrepay : ∀ i, (c.thread i).Repays (obliges i)) (hd : d.Complete) {r : R}
    (hr : present d.shared r) : present c.shared r := by
  by_contra hstart
  have hinv : (∀ i, (d.thread i).Performs (P i)) ∧ (∀ i, (d.thread i).Repays (obliges i)) ∧
      (present d.shared r → Owed frees d r) := by
    refine hcd.preserves (I := fun d => (∀ i, (d.thread i).Performs (P i)) ∧
      (∀ i, (d.thread i).Repays (obliges i)) ∧ (present d.shared r → Owed frees d r)) ?_
      ⟨hperf, hrepay, fun hr => absurd hr hstart⟩
    rintro d e step ⟨hperf, hrepay, howed⟩
    obtain ⟨hperf', hrepay', hstep⟩ := custody.step step hperf hrepay
    exact ⟨hperf', hrepay', hstep r howed⟩
  exact (hinv.2.2 hr).not_complete hd

/-- The programs that clean announce that they will free something, the others idle. -/
def Waits (Cleans : Fin n → Prop) (idle : Fin n → E.Op → Prop) (looks freeing : Fin n → E.Op)
    (A : (o : E.Op) → E.Answer o → Prop) (c : Pool E ε α σ n) : Prop :=
  ∀ i, (Cleans i → (c.thread i).Announces (idle i) (looks i) A (freeing i)) ∧
    (¬ Cleans i → (c.thread i).Performs (idle i))

section Waits

variable {Q : σ → Prop} {idle : Fin n → E.Op → Prop} {looks freeing : Fin n → E.Op}
  {A : (o : E.Op) → E.Answer o → Prop} {Cleans : Fin n → Prop} {r : R}

theorem Waits.advance (hwaits : Waits Cleans idle looks freeing A c) {j : Fin n}
    {p : Program E ε α} (hclean : Cleans j → p.Announces (idle j) (looks j) A (freeing j))
    (hidle : ¬ Cleans j → p.Performs (idle j)) (s : σ) :
    Waits Cleans idle looks freeing A (c.advance j p s) :=
  Pool.forall_thread_advance (T := fun i p =>
    (Cleans i → p.Announces (idle i) (looks i) A (freeing i)) ∧
      (¬ Cleans i → p.Performs (idle i))) hwaits ⟨hclean, hidle⟩ s

/-- Idle programs keep `Q`, and while it holds the first that looks comes to owe `r`. -/
theorem Waits.step (hkeep : ∀ i o s, idle i o → Q s → Q (h i o s).2)
    (hanswer : ∀ i s, Cleans i → Q s → A (looks i) (h i (looks i) s).1)
    (hfrees : ∀ i, Cleans i → frees i (freeing i) r) (step : Pool.Step h width c d)
    (hwaits : Waits Cleans idle looks freeing A c) (hQ : Q c.shared) :
    Owed frees d r ∨ Q d.shared ∧ Waits Cleans idle looks freeing A d := by
  cases step with
  | start _ _ => exact .inr ⟨hQ, hwaits⟩
  | @act j o next _ hop =>
    obtain ⟨hannounces, hperforms⟩ := hwaits j
    rw [hop] at hannounces hperforms
    by_cases hj : Cleans j
    · rcases hannounces hj with ⟨rfl, howes⟩ | ⟨ho, hnext⟩
      · refine .inl ⟨j, freeing j, ?_, hfrees j hj⟩
        rw [Pool.thread_advance_self]
        exact howes _ (hanswer j _ hj hQ)
      · exact .inr ⟨hkeep j o _ ho hQ,
          hwaits.advance (fun _ => hnext _) (fun h => absurd hj h) _⟩
    · obtain ⟨ho, hnext⟩ := hperforms hj
      exact .inr ⟨hkeep j o _ ho hQ, hwaits.advance (fun h => absurd h hj) (fun _ => hnext _) _⟩

end Waits

end Custody

end SrvBackup.Effects
