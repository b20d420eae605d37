import InterCore.Proofs.Reentry

/-!
# Releases

Every dropped buffer reaches the peer exactly once and in order, and the release doorbell is never
rung while its flag is set, also where callbacks use the mailbox in the middle of its operations.

## Main results

* `callback_obeys`: callbacks keep the invariant, nested to any depth.
* `Board.releases_balanced`: drops, reclaimed buffers and rings of every run with callbacks.
-/

namespace InterCore

open Memory Board

variable {p : Placement} {sw : Switches} {start : Bell} {k : Nat} {b : Board Ledger}

/-! ### Callbacks -/

/-- Nothing is found out of balance. -/
theorem keeps_audit (hp : p.Valid) : Keeps (releasePact p sw start) audit := by
  intro k b h
  have hrun : audit.run b = .ok () b := by
    show EStateM.Result.ok () (if b.Balanced ∧ b.Alternates then b else _) = _
    rw [if_pos ⟨h.balanced hp, h.rings.alternates⟩]
  exact .of_ok hrun h

theorem keeps_nextReactions : Keeps (releasePact p sw start) nextReactions := by
  refine .get fun _ b _ => Keeps.bind (.of_run (fun b => run_modifySink b _) fun k b h => ?_)
    fun _ => .pure _
  exact h.note (fun _ hbalances => { hbalances with }) { h.rings with }

/-- A reaction that is begun may add one event to those that wait. -/
theorem Sound.begin (h : Sound p sw start k b) :
    Sound p sw start (k + 1) { b with sink := { b.sink with begun := b.sink.begun + 1 } } :=
  h.note (fun _ hbalances => { hbalances with begun := Nat.succ_le_succ hbalances.begun })
    { h.rings with }

namespace Observer.Obeys

variable {o : Observer Ledger} (ho : o.Obeys p sw start) (hp : p.Valid)
include ho hp

theorem reaction (r : Reaction) : Spends (releasePact p sw start) (r.run o) := by
  cases r with
  | drop n => exact (ho.dropNoted hp n).spends
  | operation op =>
    by_cases hop : op = .reclaim
    · subst hop
      exact (keeps_reclaimNoted hp).spends
    · have hrun : (Reaction.operation op).run o =
          (do let _ ← op.run o (InterCore.dropNoted o)) := by
        cases op <;> first | rfl | exact absurd rfl hop
      rw [hrun]
      exact fun k b h => (ho.operation hp hop k b h).bind fun _ b' h' => .of_ok rfl h'

theorem performAll (rs : List Reaction) : Keeps (releasePact p sw start) (performAll o rs) :=
  .forM fun r _ k b h => .bind_of_ok (run_modifySink b _) <|
    (ho.reaction hp r k _ h.begin).bind fun _ => keeps_audit hp k

end Observer.Obeys

/-- **Callbacks keep the invariant**, by induction on how deep they are nested. -/
theorem callback_obeys (hp : p.Valid) (depth : Nat) : (callback depth).Obeys p sw start := by
  induction depth with
  | zero => exact fun e k b h => .bind_of_ok (run_modifySink b _) (keeps_audit hp k _ h)
  | succ depth ih =>
    have hrest : Keeps (releasePact p sw start) (do
        audit
        performAll (callback depth) (← nextReactions)) :=
      (keeps_audit hp).bind fun _ => keeps_nextReactions.bind fun rs => ih.performAll hp rs
    exact fun e k b h => .bind_of_ok (run_modifySink b _) (hrest k _ h)

/-! ### Runs -/

/-- A boot leaves the doorbell as it was and every line empty. -/
theorem Sound.booted (hp : p.Valid) (sw : Switches) {plan : List (List Reaction)}
    (hsink : b.sink = { plan, earlier := (b.panel.get .release).hostFlag }) :
    ∃ b', (Board.start p sw).run b = .ok () b' ∧ Sound p sw (b.panel.get .release) 0 b' := by
  obtain ⟨m', hrun, hcarries⟩ := Board.start_run hp sw b
  obtain ⟨hflag, hrings⟩ := Panel.get_booted sw b.panel .release
  refine ⟨_, hrun, ⟨_, _, ⟨Host.started_fresh p sw, hcarries⟩, ?_, ?_, Nat.zero_le _⟩,
    ?_, ?_, ?_, ?_⟩
  · rw [hsink]
    rfl
  · rw [hsink]
    rfl
  · rw [hsink]
  · rw [hsink, hrings]
    exact (UInt32.add_zero _).symm
  · rw [Alternates, hsink, hflag, Nat.zero_add]
  · rw [hsink]

/-- **Releases are balanced.** Both cores boot over any memory and any doorbells, and then reactions
are performed, with callbacks that perform those of any plan, nested to any depth. At the end of
every operation, nested or not, the buffers that were dropped so far, each written down where it was
dropped, are those that the peer took back, then the shared free queue, then the local queue, in
order. The release doorbell rings only after the ring before was consumed. A run ends early only for
one of the causes named, the first of which is the drop of a buffer that is not live or is in a
list, and it is in balance there as well. -/
theorem Board.releases_balanced (hp : p.Valid) (sw : Switches) (depth : Nat)
    (plan : List (List Reaction)) (rs : List Reaction) {b : Board Ledger}
    (hsink : b.sink = { plan, earlier := (b.panel.get .release).hostFlag }) :
    Ensures (fun e b' => b'.Ends e ∧ b'.Balanced ∧ Rings (b.panel.get .release) b')
      (performFromBoot p sw depth rs) b
      fun _ b' => b'.Balanced ∧ Rings (b.panel.get .release) b' := by
  obtain ⟨b₁, hrun, h₁⟩ := Sound.booted hp sw hsink
  refine .bind_of_ok hrun ?_
  exact ((callback_obeys hp depth).performAll hp rs 0 b₁ h₁).imp
    (fun _ _ h => ⟨h.2, h.1.balanced hp, h.1.rings⟩) fun _ _ h => ⟨h.balanced hp, h.rings⟩

/-- A board before a boot, with two empty boxes. -/
def Board.blank (plan : List (List Reaction)) : Board Ledger where
  memory := Memory.zero
  panel := Panel.reset
  clockEnables := 0
  host := Host.fresh Placement.standard {} {}
  peer := default
  boxes := #[Box.empty, Box.empty]
  sink := { plan, earlier := false }

/-- Two events reach two boxes, one box is released, and the peer takes back what it is given. -/
def Reaction.session : List Reaction :=
  [.operation (.deliverEvent 15 [0, 1]), .operation (.deliverEvent 14 [2]),
    .operation (.fetchEvents .ble), .operation (.takeEvent .ble 0), .operation (.takeEvent .ble 1),
    .operation (.releaseBox 0), .operation .reclaim, .operation .transmitInterrupt, .drop 9]

/-- The callback of the first drop, which is the third one, releases the other box. -/
def Reaction.sessionPlan : List (List Reaction) :=
  [[], [], [.operation (.releaseBox 1), .operation .receiveInterrupt]]

/-- Releases are balanced where one box is released in the middle of the release of another. -/
theorem Board.releases_balanced_session : ∃ b',
    (performFromBoot Placement.standard {} 2 Reaction.session).run
      (Board.blank Reaction.sessionPlan) = .ok () b' ∧
    b'.sink = { plan := [], earlier := false, begun := 11, dropped := [8, 7, 9], told := 3,
                reclaimed := [some 8, some 7], rung := 2, acknowledged := 1 } ∧
    b'.Balanced ∧ Rings (Panel.reset.get .release) b' := by
  have hfresh : (Board.blank Reaction.sessionPlan).sink =
      { plan := Reaction.sessionPlan,
        earlier := ((Board.blank Reaction.sessionPlan).panel.get .release).hostFlag } := by
    rw [Board.blank, Panel.get_reset]
  have hbalanced :=
    Board.releases_balanced Placement.valid_standard {} 2 _ Reaction.session hfresh
  have hsink : (match (performFromBoot Placement.standard {} 2 Reaction.session).run
      (Board.blank Reaction.sessionPlan) with
      | .ok _ b' => some b'.sink
      | .error _ _ => none) =
    some { plan := [], earlier := false, begun := 11, dropped := [8, 7, 9], told := 3,
           reclaimed := [some 8, some 7], rung := 2, acknowledged := 1 } := by decide +kernel
  cases hbalanced with
  | of_ok hrun h =>
    rw [hrun] at hsink
    exact ⟨_, hrun, Option.some.inj hsink, h⟩
  | of_error hrun h =>
    rw [hrun] at hsink
    cases hsink

end InterCore
