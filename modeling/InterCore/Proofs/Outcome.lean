import InterCore.Board.Lemmas

/-!
# Outcomes of programs

A program may run a callback in the middle, and the callback other programs. What survives all this
is said by a pact: a condition that holds between any two steps, and one that holds where the
program halts.

A loop that callbacks keep supplied may go on for long. A pact therefore counts a surplus. Every
round of a loop that did something gains one, a program that supplies a loop spends one, and a loop
counts as endless only after the surplus has grown by all its rounds.

## Main definitions

* `Board.Ensures`: how a program ends from a given board.
* `Pact`, `Board.Keeps`: a program keeps a pact, on whatever board it starts.
* `Board.Spends`, `Board.Gains`: it spends one of the surplus, or gains one by a round.

## Main results

* `Board.Keeps.bind`, `Board.Gains.drain`, `Board.Keeps.forM`: sequences and loops keep what their
  parts keep.
-/

namespace InterCore

variable {σ α β : Type}

/-- What holds between the steps of a program, and what holds where it halts. -/
structure Pact (σ : Type) where
  /-- Holds between two steps, with at least a given surplus. -/
  holds : Nat → Board σ → Prop
  holds_of_succ : ∀ {k b}, holds (k + 1) b → holds k b
  /-- Holds where a program halts, for a given cause. -/
  halted : Halt → Board σ → Prop
  endless : ∀ {k b}, holds (k + stepLimit) b → halted .endless b

theorem Pact.holds_of_add (c : Pact σ) {k l : Nat} {b : Board σ} (h : c.holds (k + l) b) :
    c.holds k b := by
  induction l with
  | zero => exact h
  | succ l ih => exact ih (c.holds_of_succ h)

namespace Board

/-- From the board `b` the program finishes with `Q`, or halts with `J`. -/
inductive Ensures (J : Halt → Board σ → Prop) (x : BoardM σ α) (b : Board σ)
    (Q : α → Board σ → Prop) : Prop where
  | of_ok {r : α} {b' : Board σ} (hrun : x.run b = .ok r b') (h : Q r b')
  | of_error {e : Halt} {b' : Board σ} (hrun : x.run b = .error e b') (h : J e b')

/-- The program keeps a pact. -/
def Keeps (c : Pact σ) (x : BoardM σ α) : Prop :=
  ∀ k b, c.holds k b → Ensures c.halted x b fun _ => c.holds k

/-- The program keeps a pact, but may spend one of its surplus. -/
def Spends (c : Pact σ) (x : BoardM σ α) : Prop :=
  ∀ k b, c.holds (k + 1) b → Ensures c.halted x b fun _ => c.holds k

/-- A round of a loop keeps a pact, and gains one if it did something. -/
def Gains (c : Pact σ) (round : BoardM σ Bool) : Prop :=
  ∀ k b, c.holds k b → Ensures c.halted round b fun more => c.holds (k + more.toNat)

namespace Ensures

variable {J J' : Halt → Board σ → Prop} {x : BoardM σ α} {f : α → BoardM σ β} {b b' : Board σ}
  {Q Q' : α → Board σ → Prop} {R : β → Board σ → Prop}

theorem imp (hx : Ensures J x b Q) (hJ : ∀ e b', J e b' → J' e b')
    (h : ∀ r b', Q r b' → Q' r b') : Ensures J' x b Q' := by
  cases hx with
  | of_ok hrun hr => exact .of_ok hrun (h _ _ hr)
  | of_error hrun hr => exact .of_error hrun (hJ _ _ hr)

theorem imp_ok (hx : Ensures J x b Q) (h : ∀ r b', Q r b' → Q' r b') : Ensures J x b Q' :=
  hx.imp (fun _ _ => id) h

theorem get {f : Board σ → BoardM σ β} (hf : Ensures J (f b) b R) :
    Ensures J (MonadState.get >>= f) b R := by
  cases hf with
  | of_ok hrun hr => exact .of_ok hrun hr
  | of_error hrun hr => exact .of_error hrun hr

/-- A first program that is known to finish. -/
theorem bind_of_ok {r : α} (hrun : x.run b = .ok r b') (hf : Ensures J (f r) b' R) :
    Ensures J (x >>= f) b R := by
  cases hf with
  | of_ok hrun' hr => exact .of_ok ((run_bind_ok hrun).trans hrun') hr
  | of_error hrun' hr => exact .of_error ((run_bind_ok hrun).trans hrun') hr

/-- Programs one after the other. -/
theorem bind (hx : Ensures J x b Q) (hf : ∀ r b', Q r b' → Ensures J (f r) b' R) :
    Ensures J (x >>= f) b R := by
  cases hx with
  | of_ok hrun hr => exact bind_of_ok hrun (hf _ _ hr)
  | of_error hrun hr => exact .of_error (run_bind_error hrun) hr

theorem map (hx : Ensures J x b Q) (g : α → β) (h : ∀ r b', Q r b' → R (g r) b') :
    Ensures J (g <$> x) b R := by
  rw [map_eq_pure_bind]
  exact hx.bind fun r b' hr => .of_ok rfl (h r b' hr)

end Ensures

namespace Keeps

variable {c : Pact σ} {x : BoardM σ α} {f : α → BoardM σ β}

theorem pure (r : α) : Keeps c (Pure.pure r) := fun _ _ h => .of_ok rfl h

/-- A program that always finishes. -/
theorem of_run {g : Board σ → α} {f : Board σ → Board σ} (hrun : ∀ b, x.run b = .ok (g b) (f b))
    (hf : ∀ k b, c.holds k b → c.holds k (f b)) : Keeps c x :=
  fun k b h => .of_ok (hrun b) (hf k b h)

theorem bind (hx : Keeps c x) (hf : ∀ r, Keeps c (f r)) : Keeps c (x >>= f) :=
  fun k b h => (hx k b h).bind fun r b' h' => hf r k b' h'

theorem get {f : Board σ → BoardM σ β} (hf : ∀ k b, c.holds k b → Keeps c (f b)) :
    Keeps c (MonadState.get >>= f) :=
  fun k b h => .get (hf k b h k b h)

theorem ite {P : Prop} [Decidable P] {x y : BoardM σ α} (hx : Keeps c x) (hy : Keeps c y) :
    Keeps c (if P then x else y) := by
  split
  · exact hx
  · exact hy

theorem forM {xs : List α} {f : α → BoardM σ PUnit} (hf : ∀ x ∈ xs, Keeps c (f x)) :
    Keeps c (xs.forM f) := by
  induction xs with
  | nil => exact .pure _
  | cons x xs ih =>
    exact (hf x List.mem_cons_self).bind fun _ => ih fun y hy => hf y (List.mem_cons_of_mem _ hy)

/-- What keeps a pact need not spend anything. -/
theorem spends (hx : Keeps c x) : Spends c x :=
  fun k b h => (hx (k + 1) b h).imp_ok fun _ _ => c.holds_of_succ

end Keeps

theorem Spends.map {c : Pact σ} {x : BoardM σ α} (hx : Spends c x) (g : α → β) :
    Spends c (g <$> x) :=
  fun k b h => (hx k b h).map g fun _ _ => id

namespace Gains

variable {c : Pact σ} {round : BoardM σ Bool}

/-- After `done` rounds the surplus has grown by as much. -/
theorem countRounds (hround : Gains c round) {limit done : Nat} (hlimit : done + limit = stepLimit)
    (counted : Nat) {k : Nat} {b : Board σ} (h : c.holds (k + done) b) :
    Ensures c.halted (countRounds round limit counted) b fun _ => c.holds k := by
  induction limit generalizing done counted b with
  | zero =>
    have hdone : done = stepLimit := hlimit
    subst hdone
    exact .of_error rfl (c.endless h)
  | succ limit ih =>
    refine (hround _ b h).bind fun more b' h' => ?_
    cases more with
    | true => exact ih ((Nat.add_right_comm done 1 limit).trans hlimit) (counted + 1) h'
    | false => exact .of_ok rfl (c.holds_of_add h')

/-- **A loop keeps a pact** if every round gains something. -/
theorem drain (hround : Gains c round) : Keeps c (drain round) := fun _ _ h =>
  hround.countRounds (Nat.zero_add stepLimit) 0 h

end Gains

end Board

end InterCore
