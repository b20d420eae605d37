import InterCore.Board

/-!
# Running the primitive programs

What each primitive program does to a board, as equations for `EStateM.run`. With them a program of
the host or of the peer is run by rewriting, one step at a time.

## Main results

* `Board.run_bind_ok`, `Board.run_bind_error`: programs one after the other.
* `Board.run_splice_ok`, `Board.run_extract_ok`, `Board.run_lookup_ok`: looking up and linking.
* `Board.run_countRounds_of_false`, `Board.run_countRounds_of_true`: one round of a loop.
* `Board.exists_run_drain`: a loop that takes the members of a list one by one.
-/

namespace InterCore.Board

variable {σ α : Type} (b : Board σ)

theorem run_bind_ok {β : Type} {x : BoardM σ α} {f : α → BoardM σ β} {b b' : Board σ} {r : α}
    (h : x.run b = .ok r b') : (x >>= f).run b = (f r).run b' := by
  rw [EStateM.run_bind, h]

theorem run_bind_error {β : Type} {x : BoardM σ α} {f : α → BoardM σ β} {b b' : Board σ}
    {e : Halt} (h : x.run b = .error e b') : (x >>= f).run b = .error e b' := by
  rw [EStateM.run_bind, h]

theorem run_map_ok {β : Type} {x : BoardM σ α} {b b' : Board σ} {r : α} (f : α → β)
    (h : x.run b = .ok r b') : (f <$> x).run b = .ok (f r) b' := by
  rw [map_eq_pure_bind, run_bind_ok h]
  rfl

/-- Programs that go on alike after the same beginning. -/
theorem run_bind_congr {β : Type} {x : BoardM σ α} {f g : α → BoardM σ β} {b : Board σ}
    (h : ∀ r b', x.run b = .ok r b' → (f r).run b' = (g r).run b') :
    (x >>= f).run b = (x >>= g).run b := by
  rw [EStateM.run_bind, EStateM.run_bind]
  cases hrun : x.run b with
  | ok r b' => exact h r b' hrun
  | error e b' => rfl

/-- A look at the board. -/
theorem run_get_bind (f : Board σ → BoardM σ α) :
    (MonadState.get >>= f).run b = (f b).run b := rfl

theorem run_lookup_ok {f : Arena → Memory → Except Halt α} {x : α}
    (h : f b.host.arena b.memory = .ok x) : (lookup f).run b = .ok x b := by
  simp only [EStateM.run, lookup, h]

theorem run_lookup_error {f : Arena → Memory → Except Halt α} {e : Halt}
    (h : f b.host.arena b.memory = .error e) : (lookup f).run b = .error e b := by
  simp only [EStateM.run, lookup, h]

theorem run_splice_ok {f : Arena → Memory → Except Halt Memory} {m : Memory}
    (h : f b.host.arena b.memory = .ok m) :
    (splice f).run b = .ok () { b with memory := m } := by
  simp only [EStateM.run, splice, h]

theorem run_extract_ok {f : Arena → Memory → Except Halt (α × Memory)} {x : α} {m : Memory}
    (h : f b.host.arena b.memory = .ok (x, m)) :
    (extract f).run b = .ok x { b with memory := m } := by
  simp only [EStateM.run, extract, h]

theorem run_extract_error {f : Arena → Memory → Except Halt (α × Memory)} {e : Halt}
    (h : f b.host.arena b.memory = .error e) : (extract f).run b = .error e b := by
  simp only [EStateM.run, extract, h]

@[simp] theorem run_modifyMemory (f : Memory → Memory) :
    (modifyMemory f).run b = .ok () { b with memory := f b.memory } := rfl

@[simp] theorem run_modifyBell (c : Channel) (f : Bell → Bell) :
    (modifyBell c f).run b = .ok () { b with panel := b.panel.modify c f } := rfl

@[simp] theorem run_bell (c : Channel) : (bell c).run b = .ok (b.panel.get c) b := rfl

@[simp] theorem run_modifyHost (f : Host → Host) :
    (modifyHost f).run b = .ok () { b with host := f b.host } := rfl

@[simp] theorem run_modifyPeer (f : Peer → Peer) :
    (modifyPeer f).run b = .ok () { b with peer := f b.peer } := rfl

@[simp] theorem run_modifySink (f : σ → σ) :
    (modifySink f).run b = .ok () { b with sink := f b.sink } := rfl

/-! ### Loops -/

theorem run_countRounds_of_false {round : BoardM σ Bool} {b' : Board σ} (limit counted : Nat)
    (h : round.run b = .ok false b') :
    (countRounds round (limit + 1) counted).run b = .ok counted b' := by
  simp [countRounds, h]

theorem run_countRounds_of_true {round : BoardM σ Bool} {b' : Board σ} (limit counted : Nat)
    (h : round.run b = .ok true b') :
    (countRounds round (limit + 1) counted).run b =
      (countRounds round limit (counted + 1)).run b' := by
  simp [countRounds, h]

theorem run_countRounds_of_error {round : BoardM σ Bool} {e : Halt} {b' : Board σ}
    (limit counted : Nat) (h : round.run b = .error e b') :
    (countRounds round (limit + 1) counted).run b = .error e b' := by
  simp [countRounds, h]

section Lists

variable {ι : Type} {round : BoardM σ Bool} {I : List ι → Board σ → Prop}
  (hnil : ∀ b, I [] b → ∃ b', round.run b = .ok false b' ∧ I [] b')
  (hcons : ∀ x xs b, I (x :: xs) b → ∃ b', round.run b = .ok true b' ∧ I xs b')
include hnil hcons

theorem exists_run_countRounds {xs : List ι} {b : Board σ} (h : I xs b) {limit : Nat}
    (hlimit : xs.length < limit) (counted : Nat) :
    ∃ b', (countRounds round limit counted).run b = .ok (counted + xs.length) b' ∧ I [] b' := by
  induction xs generalizing b limit counted with
  | nil =>
    obtain ⟨limit, rfl⟩ := Nat.exists_eq_add_one_of_ne_zero (Nat.ne_of_gt hlimit)
    obtain ⟨b', hrun, h'⟩ := hnil b h
    exact ⟨b', run_countRounds_of_false b limit counted hrun, h'⟩
  | cons x xs ih =>
    obtain ⟨limit, rfl⟩ :=
      Nat.exists_eq_add_one_of_ne_zero (Nat.ne_of_gt (Nat.zero_lt_of_lt hlimit))
    obtain ⟨b₁, hrun₁, h₁⟩ := hcons x xs b h
    obtain ⟨b₂, hrun₂, h₂⟩ := ih h₁ (Nat.lt_of_succ_lt_succ hlimit) (counted + 1)
    refine ⟨b₂, ?_, h₂⟩
    rw [run_countRounds_of_true b limit counted hrun₁, hrun₂, List.length_cons, Nat.add_assoc,
      Nat.add_comm 1]

/-- **A loop that takes the members of a list one by one** does as many rounds as the list has
members. -/
theorem exists_run_drain {xs : List ι} {b : Board σ} (h : I xs b) (hlimit : xs.length < stepLimit) :
    ∃ b', (drain round).run b = .ok xs.length b' ∧ I [] b' := by
  have := exists_run_countRounds hnil hcons h hlimit 0
  rwa [Nat.zero_add] at this

end Lists

end InterCore.Board
