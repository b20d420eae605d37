import InterCore.Proofs.Wakeups

/-!
# Settling

Buffers come back in two hops, and a buffer may be stuck before either: the peer has not looked
yet, or the host has not been told that it has. A look, a transmit interrupt and a second look bring
every buffer home, whatever mix of the two a run has left behind. What is not given back stays where
it was.

This rests on the wake-ups. A caller that hands waiting buffers over and rings no doorbell takes
their wake-up away, and a caller that gives back a spare buffer adds one to the pool of the peer.

## Main definitions

* `Board.settle`: two looks of the peer and a transmit interrupt in between.
* `Board.retained`: the buffers that were not given back.
* `Board.Settled`: nothing is left of what was given back.

## Main results

* `Calls.settles`: every board of a run settles.
* `Calls.stranded`: what is handed over without a ring does not.
-/

namespace InterCore

variable {σ : Type}

namespace Board

/-- The buffers that were not given back: in the queues of events and of traces, in the inboxes and
in the boxes. -/
def retained (b : Board σ) : List (Option NodeIndex) :=
  (b.inboxNodes .ble ++ b.line (.shared .ble)) ++
    (b.inboxNodes .system ++ b.line (.shared .system)) ++
    (if b.host.switches.traces then b.line (.shared .traces) else []) ++ b.boxNodes.map some

/-- Two looks of the peer and a transmit interrupt in between. -/
def settle (observer : Observer σ) : BoardM σ Unit := do
  let _ ← Peer.reclaim
  Host.transmitInterrupt observer
  let _ ← Peer.reclaim

/-- What is left in the shared free queue, whether it is announced, what was not given back, and
what the peer misses. -/
def remainder (b : Board σ) : List (Option NodeIndex) × Bool × List (Option NodeIndex) × UInt64 :=
  (b.line (.shared .free), (b.panel.get .release).hostFlag, b.retained, b.peer.outstanding)

/-- Nothing is left of what was given back, and the buffers `kept` are where they were. -/
structure Settled (kept : List (Option NodeIndex)) (b : Board σ) : Prop where
  waiting : b.line .waiting = []
  free : b.line (.shared .free) = []
  hostFlag : (b.panel.get .release).hostFlag = false
  pending : b.host.releasePending = false
  masked : (b.panel.get .release).txEnabled = false
  retained : b.retained = kept

end Board

namespace Account

variable {p : Placement} {sw : Switches} {note : Event → σ → σ} {s : Account σ}

/-- The buffers that were not given back. -/
def retained (s : Account σ) : List NodeIndex :=
  s.pipeline .ble ++ s.pipeline .system ++ s.line (.shared .traces) ++ s.boxes.reduceOption

/-- An account after two looks of the peer and a transmit interrupt in between. -/
def settle (p : Placement) (note : Event → σ → σ) (s : Account σ) : Account σ :=
  (s.reclaim.transmitInterrupt p note).reclaim

/-- The transmit interrupt takes nothing from a queue that the peer fills. -/
theorem intake_transmitInterrupt (f : Feed) :
    (s.transmitInterrupt p note).intake f = s.intake f := by
  have hmasked : ∀ (c : Channel) (t : Account σ),
      (t.modifyBell c (·.enableTx false)).intake f = t.intake f := fun c t =>
    congrArg (Intake.mk _) (Panel.modify_keeps (Bell.inbound_enableTx false))
  have hacl : ∀ t : Account σ, (t.aclAcknowledged note).intake f = t.intake f := hmasked .aclData
  have hrelease : ∀ t : Account σ, (t.releaseAcknowledged note).intake f = t.intake f := fun t =>
    (aside_releaseAcknowledged (p := Placement.standard)).intake f
  have hsystem : ∀ t : Account σ, (t.systemAnswered p note).intake f = t.intake f :=
    hmasked .systemCommand
  exact (serve_keeps (intake · f) hacl _).trans
    ((serve_keeps (intake · f) hrelease _).trans (serve_keeps (intake · f) hsystem s))

theorem release_settle : (s.settle p note).release = s.release.reclaim.served.reclaim := by
  rw [settle, release_reclaim, release_transmitInterrupt, release_reclaim]

/-- Settling keeps what was not given back. -/
theorem retained_settle : (s.settle p note).retained = s.retained := by
  have hpipeline : ∀ e, (s.settle p note).pipeline e = s.pipeline e := fun e =>
    (((steady_reclaim (p := p)).trans steady_transmitInterrupt).trans steady_reclaim).pipeline e
  have htraces : ((s.settle p note).line (.shared .traces)) = s.line (.shared .traces) := by
    have hreclaim : ∀ t : Account σ, t.reclaim.intake .traces = t.intake .traces := fun t =>
      (aside_reclaim (p := p)).intake .traces
    have hintake : (s.settle p note).intake .traces = s.intake .traces := by
      rw [settle, hreclaim, intake_transmitInterrupt, hreclaim]
    exact congrArg Intake.line hintake
  have hboxes : (s.settle p note).boxes = s.boxes :=
    boxes_reclaim.trans (boxes_transmitInterrupt.trans boxes_reclaim)
  rw [retained, hpipeline, hpipeline, htraces, hboxes, retained]

/-- Only a buffer from nowhere adds to the places. -/
theorem length_places_call (hp : p.Valid) {b : Board σ} (h : b.Shows p sw s) {c : Call}
    (hc : c.Permitted b) :
    (c.apply p sw note s).places.length = s.places.length + c.gives.toNat := by
  by_cases hgive : ∀ n, c ≠ .giveBack n
  · have hgives : c.gives = false := by
      cases c with
      | giveBack n => exact absurd rfl (hgive n)
      | operation | systemAnswered | aclAcknowledged | discardTraces | flush | fetchOne
      | discardOne => rfl
    rw [(places_call hp c (lt_length_of_permitted h hc) hgive).length_eq, hgives]
    rfl
  · simp only [ne_eq, not_forall, not_not] at hgive
    obtain ⟨n, rfl⟩ := hgive
    exact places_giveBack.length_eq

/-- What is neither with the peer nor given back was retained. -/
theorem length_places_of_settled (h : s.release.Settled) :
    s.places.length = s.free.length + s.retained.length := by
  have hfree : s.line (.shared .free) = [] := h.free
  have hwaiting : s.line .waiting = [] := h.waiting
  simp only [places, retained, pipeline, Line.all, List.flatMap_cons, List.flatMap_nil, hfree,
    hwaiting, List.length_append, List.length_nil, Endpoint.queue]
  omega

end Account

namespace Board.Shows

variable {p : Placement} {sw : Switches} {note : Event → σ → σ} {b : Board σ} {s : Account σ}
  (h : b.Shows p sw s)
include h

theorem retained_eq : b.retained = s.retained.map some := by
  have hline : ∀ q : Queue, q ≠ .traces → b.line (.shared q) = (s.line (.shared q)).map some :=
    fun q hq => h.line_eq_of_ne fun heq => hq (Line.shared.inj heq)
  have htraces : (if sw.traces then b.line (.shared .traces) else []) =
      (s.line (.shared .traces)).map some := by
    split
    · next ht => exact h.ready.line_eq h.valid (Line.mem_made_iff.mpr fun _ => ht)
    · next ht => rw [(h.carries.unmade (Bool.eq_false_iff.mpr ht)).1, List.map_nil]
  rw [retained, h.host.switches, htraces, h.inboxNodes_eq, h.inboxNodes_eq, hline .ble (by decide),
    hline .system (by decide), h.boxNodes_eq, ← List.map_append, ← List.map_append,
    ← List.map_append, ← List.map_append, ← List.map_append, Account.retained, Account.pipeline,
    Account.pipeline]
  rfl

theorem settle (note : Event → σ → σ) :
    Yields p sw (settle (Observer.passive note)) b () (s.settle p note) :=
  h.reclaim.bind fun _ h₁ => (h₁.transmitInterrupt note).bind fun _ h₂ =>
    h₂.reclaim.bind fun _ h₃ => h₃.pure ()

/-- A board is settled when its account is. -/
theorem settled (hsettled : s.release.Settled) : b.Settled b.retained := by
  constructor
  case waiting =>
    rw [h.line_eq_of_ne (by decide), show s.line .waiting = [] from hsettled.waiting, List.map_nil]
  case free =>
    rw [h.line_eq_of_ne (by decide), show s.line (.shared .free) = [] from hsettled.free,
      List.map_nil]
  case hostFlag =>
    rw [h.panel]
    exact hsettled.hostFlag
  case pending => exact (congrArg Flags.releasePending h.flags).trans hsettled.pending
  case masked =>
    rw [h.panel]
    exact hsettled.txEnabled
  case retained => rfl

/-- On a settled board the peer misses what was retained, less what it was given in excess. -/
theorem outstanding_of_settled {given : Nat} (hplaces : s.places.length = pool.length + given)
    (hsettled : s.release.Settled) :
    b.peer.outstanding = UInt64.ofNat b.retained.length - UInt64.ofNat given := by
  have hfree : b.peer.free.length = s.free.length := by
    rw [h.carries.peer_free, List.length_map]
  have hlength : b.retained.length = s.retained.length := by rw [h.retained_eq, List.length_map]
  have hcount : s.free.length + s.retained.length = 5 + given :=
    (Account.length_places_of_settled hsettled).symm.trans hplaces
  have hsum : UInt64.ofNat s.free.length + UInt64.ofNat s.retained.length =
      5 + UInt64.ofNat given := by
    rw [← UInt64.ofNat_add, hcount, UInt64.ofNat_add]
    rfl
  rw [Peer.outstanding, h.carries.peer_slots, hfree, hlength]
  show 5 - UInt64.ofNat s.free.length = _
  grind

/-- On a settled board the peer misses what was retained, if it was given nothing in excess. -/
theorem toNat_outstanding (hplaces : s.places.length = pool.length)
    (hsettled : s.release.Settled) : b.peer.outstanding.toNat = b.retained.length := by
  have hcount : s.free.length + s.retained.length = 5 :=
    (Account.length_places_of_settled hsettled).symm.trans hplaces
  have hle : b.retained.length ≤ 5 := by
    rw [h.retained_eq, List.length_map]
    omega
  have houtstanding : b.peer.outstanding = UInt64.ofNat b.retained.length - UInt64.ofNat 0 :=
    h.outstanding_of_settled hplaces hsettled
  rw [houtstanding, show UInt64.ofNat 0 = 0 from rfl, UInt64.sub_zero]
  exact UInt64.toNat_ofNat_of_lt' (Nat.lt_of_le_of_lt hle (by decide))

end Board.Shows

/-- The host hands waiting buffers over without a ring, and their doorbell is not set. -/
def Turn.Strands (t : Turn σ) : Prop :=
  t.call = .flush ∧ (t.before.panel.get .release).hostFlag = false ∧ t.before.line .waiting ≠ []

namespace Calls

variable {p : Placement} {sw : Switches} {note : Event → σ → σ} {b₀ b : Board σ}
  {ts : List (Turn σ)}

/-- A call that strands nothing leaves nothing without a wake-up. -/
theorem armed_step (hp : p.Valid) {s : Account σ} (hshows : b.Shows p sw s) (hs : s.Proper [])
    {c : Call} {r : Answer} {b' : Board σ} (hstrands : ¬ Turn.Strands ⟨b, c, r, b'⟩)
    (harmed : s.release.Armed) : (c.apply p sw note s).release.Armed := by
  have heffect := (Account.call_effect sw note hp hs c).release
  by_cases hflush : c = .flush
  · subst hflush
    refine (congrArg Release.Armed heffect).mpr (harmed.handOver ?_)
    by_contra hnot
    rw [not_or, Bool.not_eq_true] at hnot
    have hwaiting := (hshows.line_ne_nil_iff (Line.mem_made_of_ne _ (by decide))).mpr hnot.2
    refine hstrands ⟨rfl, ?_, hwaiting⟩
    rw [hshows.panel]
    exact hnot.1
  · exact Call.armed hflush heffect harmed

/-- What is known of given-back buffers when none is stranded. -/
theorem exists_armed (hp : p.Valid) (hboxes : ∀ x ∈ b₀.boxes, x = Box.empty)
    (h : Calls p sw note b₀ ts b) (hstrands : ∀ t ∈ ts, ¬ t.Strands) :
    ∃ s, b.Shows p sw s ∧ s.release.Armed ∧
      s.places.length = pool.length + ts.countP (·.call.gives) := by
  obtain ⟨s, hshows, -, ⟨harmed, hplaces⟩, -⟩ := h.invariant_of hp hboxes
    (I := fun ts s => s.release.Armed ∧
      s.places.length = pool.length + ts.countP (·.call.gives)) (P := fun _ => True)
    (fun m => ⟨armed_booted m, (Account.places_booted _ _ _ _).length_eq⟩)
    (fun ts b s c b' hI hshows hs hc _ hstrands => by
      refine ⟨⟨armed_step hp hshows hs hstrands hI.1, ?_⟩, trivial⟩
      rw [Turn.countP_append, ← Nat.add_assoc, ← hI.2]
      exact Account.length_places_call hp hshows hc) hstrands
  exact ⟨s, hshows, harmed, hplaces⟩

/-- **Every board settles**: two looks of the peer and a transmit interrupt in between bring home
all that was given back, and nothing else. The peer then misses what was retained, less the buffers
that came from nowhere. -/
theorem settles (hp : p.Valid) (hboxes : ∀ x ∈ b₀.boxes, x = Box.empty)
    (h : Calls p sw note b₀ ts b) (hstrands : ∀ t ∈ ts, ¬ t.Strands) :
    ∃ b', (Board.settle (Observer.passive note)).run b = .ok () b' ∧ b'.Settled b.retained ∧
      b'.peer.outstanding =
        UInt64.ofNat b.retained.length - UInt64.ofNat (ts.countP (·.call.gives)) ∧
      ((∀ t ∈ ts, t.call.gives = false) → b'.peer.outstanding.toNat = b.retained.length ∧
        (b.retained = [] → b'.peer.outstanding = 0)) := by
  obtain ⟨s, hshows, harmed, hplaces⟩ := h.exists_armed hp hboxes hstrands
  obtain ⟨b', hrun, hshows'⟩ := hshows.settle note
  have hretained : b'.retained = b.retained := by
    rw [hshows'.retained_eq, Account.retained_settle, hshows.retained_eq]
  have hsettled : (s.settle p note).release.Settled := Account.release_settle ▸ harmed.settled
  have hperm : (s.settle p note).places.Perm s.places :=
    Account.places_reclaim.trans (Account.places_transmitInterrupt.trans Account.places_reclaim)
  have hlength := hperm.length_eq.trans hplaces
  rw [← hretained]
  refine ⟨b', hrun, hshows'.settled hsettled, hshows'.outstanding_of_settled hlength hsettled,
    fun hgives => ?_⟩
  have hnone : ts.countP (·.call.gives) = 0 :=
    List.countP_eq_zero.mpr fun t ht => Bool.eq_false_iff.mp (hgives t ht)
  have hexact : b'.peer.outstanding.toNat = b'.retained.length :=
    hshows'.toNat_outstanding (by rw [hlength, hnone, Nat.add_zero]) hsettled
  refine ⟨hexact, fun hnil => UInt64.toNat_inj.mp ?_⟩
  rw [hexact, hnil]
  rfl

/-- A board settles on which one box went back with a ring and another without, while an event is
still in a queue. -/
theorem settles_session : ∃ ts b,
    Calls Placement.standard {} (fun _ c => c) Demo.blank ts b ∧
    ts.map (·.call) = [.deliverEvent 15 [0, 1], .deliverEvent 14 [2], .fetchEvents .ble,
      .takeEvent .ble 0, .newBox, .takeEvent .ble 1, .releaseBox 0, .releaseBox 1,
      .deliverSystemEvent 7 []].map Call.operation ∧
    (∀ t ∈ ts, ¬ t.Strands) ∧
    ∃ b', (Board.settle (Observer.passive fun _ c => c)).run b = .ok () b' ∧
      b'.Settled b.retained ∧
      b'.peer.outstanding =
        UInt64.ofNat b.retained.length - UInt64.ofNat (ts.countP (·.call.gives)) ∧
      ((∀ t ∈ ts, t.call.gives = false) → b'.peer.outstanding.toNat = b.retained.length ∧
        (b.retained = [] → b'.peer.outstanding = 0)) := by
  obtain ⟨ts, b, h, hcalls⟩ : ∃ ts b,
      Calls Placement.standard {} (fun _ c => c) Demo.blank ts b ∧
      ts.map (·.call) = [.deliverEvent 15 [0, 1], .deliverEvent 14 [2], .fetchEvents .ble,
        .takeEvent .ble 0, .newBox, .takeEvent .ble 1, .releaseBox 0, .releaseBox 1,
        .deliverSystemEvent 7 []].map Call.operation :=
    exists_of_legal Placement.valid_standard Demo.boxes_blank (by decide) (by decide)
  have hstrands : ∀ t ∈ ts, ¬ t.Strands := fun t ht hstrands =>
    Turn.call_ne hcalls (by decide) t ht hstrands.1
  exact ⟨ts, b, h, hcalls, hstrands,
    settles Placement.valid_standard Demo.boxes_blank h hstrands⟩

/-! ### Without a ring -/

/-- What is handed over while the doorbell is clear never settles: nobody will look for it. -/
theorem stranded (hp : p.Valid) (hboxes : ∀ x ∈ b₀.boxes, x = Box.empty)
    (h : Calls p sw note b₀ ts b) (hflag : (b.panel.get .release).hostFlag = false)
    (hwaiting : b.line .waiting ≠ []) :
    ∃ n b₁ b₂, Host.flush.run b = .ok n b₁ ∧
      (Board.settle (Observer.passive note)).run b₁ = .ok () b₂ ∧
      b₂.line (.shared .free) ≠ [] ∧ (b₂.panel.get .release).hostFlag = false := by
  obtain ⟨s, hshows, hs⟩ := h.exists_shows hp hboxes
  obtain ⟨b₁, hrun₁, h₁⟩ := hshows.flush
  obtain ⟨b₂, hrun₂, h₂⟩ := h₁.settle note
  have hclear : s.release.bell.hostFlag = false := by rwa [hshows.panel] at hflag
  have hleft : s.line .waiting ≠ [] :=
    (hshows.line_ne_nil_iff (Line.mem_made_of_ne _ (by decide))).mp hwaiting
  have hrelease : (s.handOver.settle p note).release =
      s.release.handOver.reclaim.served.reclaim := by
    rw [Account.release_settle, Account.release_handOver]
  obtain ⟨hfree, hunset⟩ := Release.stranded (r := s.release.handOver) hclear rfl
  rw [← hrelease] at hfree hunset
  refine ⟨_, b₁, b₂, hrun₁, hrun₂, ?_, ?_⟩
  · refine (h₂.line_ne_nil_iff (Line.mem_made_of_ne _ (by decide))).mpr ?_
    exact fun hnil => List.append_ne_nil_of_right_ne_nil _ hleft (hfree.symm.trans hnil)
  · have hbell : ∀ s : Account σ, (s.panel.get .release).hostFlag = s.release.bell.hostFlag :=
      fun _ => rfl
    rw [h₂.panel, hbell]
    exact hunset

/-- A session, a program after it, and what is left in the end. -/
theorem exists_remainder {cs : List Call} {program : BoardM σ Unit}
    {x : List (Option NodeIndex) × Bool × List (Option NodeIndex) × UInt64}
    (h : ((Call.session p sw note cs b₀).bind fun b => Board.leftBy (program.run b)).map
      Board.remainder = some x) :
    ∃ ts b b', Calls p sw note b₀ ts b ∧ ts.map (·.call) = cs ∧ program.run b = .ok () b' ∧
      b'.remainder = x := by
  obtain ⟨b', hbind, hx⟩ := Option.map_eq_some_iff.mp h
  obtain ⟨b, hsession, hleft⟩ := Option.bind_eq_some_iff.mp hbind
  obtain ⟨_, hrun⟩ := Board.exists_of_leftBy hleft
  obtain ⟨ts, hcalls, hmap⟩ := of_session hsession
  exact ⟨ts, b, b', hcalls, hmap, hrun, hx⟩

/-- Three boards that do not settle. On the first, two boxes went back, the peer took the one that
was announced, and the other was handed over without a ring. On the second, a spare buffer went to
the pool of the peer, which then has more slots than it was given. On the third, a buffer goes back
that a box still owns. -/
theorem settling_needs_rings :
    (∃ ts b b', Calls Placement.standard {} (fun _ c => c) Demo.blank ts b ∧
      ts.map (·.call) = [.deliverEvent 15 [0, 1], .deliverEvent 14 [2], .fetchEvents .ble,
        .takeEvent .ble 0, .newBox, .takeEvent .ble 1, .releaseBox 0, .releaseBox 1,
        .reclaim].map Call.operation ++ [.flush] ∧
      (Board.settle (Observer.passive fun _ c => c)).run b = .ok () b' ∧
      b'.remainder = ([some 7], false, [], 1)) ∧
    (∃ ts b b', Calls Placement.standard {} (fun _ c => c) Demo.blank ts b ∧
      ts.map (·.call) = [.giveBack 9] ∧
      (Board.settle (Observer.passive fun _ c => c)).run b = .ok () b' ∧
      b'.remainder = ([], false, [], 18446744073709551615)) ∧
    (∃ ts b b', Calls Placement.standard {} (fun _ c => c) Demo.blank ts b ∧
      ts.map (·.call) =
        [.deliverEvent 15 [0, 1], .fetchEvents .ble, .takeEvent .ble 0].map Call.operation ∧
      (do Host.giveBack (Observer.passive fun _ c => c) 8
          Board.settle (Observer.passive fun _ c => c)).run b = .ok () b' ∧
      b'.remainder = ([], false, [some 8], 0)) :=
  ⟨exists_remainder (by decide +kernel), exists_remainder (by decide +kernel),
    exists_remainder (by decide +kernel)⟩

end Calls

end InterCore
