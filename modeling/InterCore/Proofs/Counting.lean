import InterCore.Proofs.Postings

/-!
# Counters

An observer that counts every event knows what happened: how often each doorbell was rung, how many
events were taken or still wait, how many buffers the host still has or gave back, and how many
sends it refused. The counters of rings agree with the peripheral for as long as the board runs; the
others are exact until one of them wraps.

## Main definitions

* `Counters.count`: the counter of a kind.
* `Counts`: the observer counts every event, whatever else it keeps.
* `Turn.Unwrapped`: no counter wraps in a turn.
* `RingsCounted`, `Accurate`: what the counters say.

## Main results

* `Account.Entry.tally_lt`: no call tells so much that a counter could wrap unnoticed.
* `Calls.counters_exact`: what the counters say after every run.
-/

namespace InterCore

variable {σ : Type}

namespace Counters

/-- The counter of a kind. Acknowledgements and responses have none. -/
def count (c : Counters) : Event.Kind → UInt64
  | .commandSent => c.commandsSent
  | .aclSent => c.aclSent
  | .eventReceived => c.eventsReceived
  | .bufferReleased => c.buffersReleased
  | .releaseRung => c.releaseDoorbells
  | .releaseDeferred => c.releasesDeferred
  | .systemCommandSent => c.systemCommandsSent
  | .systemEventReceived => c.systemEventsReceived
  | .traceReceived => c.tracesReceived
  | .sendRejected => c.rejectedSends
  | .aclAcked | .systemResponse | .other _ => 0

/-- The kinds that have a counter. -/
def kinds : List Event.Kind :=
  [.commandSent, .aclSent, .eventReceived, .bufferReleased, .releaseRung, .releaseDeferred,
    .systemCommandSent, .systemEventReceived, .traceReceived, .sendRejected]

variable {k : Event.Kind} (hk : k ∈ kinds) (c : Counters)
include hk

theorem count_record (e : Event) :
    (c.record e).count k = if e.kind = k then c.count k + 1 else c.count k := by
  obtain ⟨kind, channel, length, code⟩ := e
  cases k with
  | aclAcked | systemResponse | other code => exact absurd hk (by simp [kinds])
  | _ => cases kind <;> rfl

/-- The counters of many events. -/
theorem count_foldl (events : List Event) :
    (events.foldl record c).count k = c.count k + UInt64.ofNat (Event.tally k events) := by
  induction events generalizing c with
  | nil => exact (UInt64.add_zero _).symm
  | cons e events ih =>
    rw [List.foldl_cons, ih, count_record hk, Event.tally_cons]
    split
    · rw [Nat.add_comm, UInt64.ofNat_add, UInt64.add_assoc]
      rfl
    · rfl

end Counters

/-- The observer counts every event, whatever else it keeps. -/
def Counts (note : Event → σ → σ) (counters : σ → Counters) : Prop :=
  ∀ e x, counters (note e x) = (counters x).record e

/-- The observer of the demonstration, without the log. -/
def Demo.counting (e : Event) (x : Console) : Console := { x with counters := x.counters.record e }

theorem Demo.counts_counting : Counts counting Console.counters := fun _ _ => rfl

theorem Counts.foldl {note : Event → σ → σ} {counters : σ → Counters} (h : Counts note counters)
    (events : List Event) (x : σ) :
    counters (events.foldl (fun y e => note e y) x) =
      events.foldl Counters.record (counters x) := by
  induction events generalizing x with
  | nil => rfl
  | cons e events ih => rw [List.foldl_cons, ih, h, List.foldl_cons]

namespace Turn

/-- The application took an event from an inbox. -/
def takes (e : Endpoint) (t : Turn σ) : Bool := t.call.takes e t.answer

/-- How many buffers the peer took back. -/
def reclaimed (t : Turn σ) : Nat := t.call.reclaimed t.answer

/-- A send was refused. -/
def refused (t : Turn σ) : Bool := t.answer.refused

/-- No counter wraps. -/
def Unwrapped (counters : σ → Counters) (t : Turn σ) : Prop :=
  ∀ k ∈ Counters.kinds, (counters t.before.sink).count k ≤ (counters t.after.sink).count k

instance (counters : σ → Counters) (t : Turn σ) : Decidable (t.Unwrapped counters) :=
  inferInstanceAs (Decidable (∀ k ∈ Counters.kinds,
    (counters t.before.sink).count k ≤ (counters t.after.sink).count k))

end Turn

/-- What the answers of some turns amount to. -/
def Receipt.of (ts : List (Turn σ)) : Receipt :=
  ⟨fun e => ts.countP (·.takes e), (ts.map Turn.reclaimed).sum, ts.countP Turn.refused⟩

theorem Receipt.of_append (ts : List (Turn σ)) (t : Turn σ) :
    of (ts ++ [t]) = (of ts).add (t.call.receipt t.answer) := by
  simp only [of, add, Turn.countP_append, List.map_append, List.sum_append, List.map_singleton,
    List.sum_singleton]
  rfl

/-! ### One call tells little -/

/-- What does not wrap counts. -/
theorem toNat_add_ofNat_of_le {a : UInt64} {n : Nat} (hn : n < UInt64.size)
    (h : a ≤ a + UInt64.ofNat n) : (a + UInt64.ofNat n).toNat = a.toNat + n := by
  rw [UInt64.le_iff_toNat_le, UInt64.toNat_add, UInt64.toNat_ofNat_of_lt' hn] at h
  rw [UInt64.toNat_add, UInt64.toNat_ofNat_of_lt' hn]
  have hlt := a.toNat_lt
  have hsize : UInt64.size = 18446744073709551616 := rfl
  omega

/-- The kinds whose counters have a counterpart among the buffers or the answers. -/
def Event.Kind.tied : List Event.Kind :=
  [.eventReceived, .systemEventReceived, .traceReceived, .bufferReleased, .releaseRung,
    .sendRejected]

theorem Event.Kind.mem_kinds_of_mem_tied {k : Event.Kind} (hk : k ∈ tied) : k ∈ Counters.kinds :=
  (by decide : ∀ k ∈ tied, k ∈ Counters.kinds) k hk

namespace Account

variable {p : Placement} {sw : Switches} {note : Event → σ → σ} {s s' : Account σ}

theorem owned_booted (m : Memory) (panel : Panel) (boxes : Nat) (sink : σ) :
    (Account.booted m panel boxes sink).owned = 0 := by
  rw [owned, booted, List.reduceOption_replicate_none]
  rfl

theorem Proper.length_places_le (h : s.Proper []) : s.places.length ≤ 7 := h.length_le

theorem returned_le (s : Account σ) : s.returned ≤ (Line.all.flatMap s.line).length := by
  simp only [returned, Line.all, List.flatMap_cons, List.flatMap_nil, List.length_append,
    List.length_nil]
  omega

theorem reclaimed_le (s : Account σ) (c : Call) :
    c.reclaimed (c.answer p sw s) ≤ s.returned := by
  by_cases hc : c = .operation .reclaim
  · subst hc
    show s.reclaimed ≤ s.returned
    rw [reclaimed, returned]
    split <;> omega
  · rw [Call.reclaimed_of_ne hc]
    exact Nat.zero_le _

/-- **No call tells so much that a counter could wrap unnoticed.** -/
theorem Entry.tally_lt {x : Receipt} {events : List Event} (h : Entry note 0 s 0 s' x events)
    (hs : s.Proper []) (hs' : s'.Proper []) (hreclaimed : x.reclaimed ≤ s.returned)
    (hrefused : x.refused ≤ 1) {k : Event.Kind} (hk : k ∈ Event.Kind.tied) :
    Event.tally k events < UInt64.size := by
  have hplaces := hs.length_places_le
  have hplaces' := hs'.length_places_le
  rw [length_places] at hplaces hplaces'
  have hreturned := returned_le s
  have hreturned' := returned_le s'
  have howned := h.owned
  have hreleased := h.returned
  have hrejected := h.refused
  have hrung := h.rung
  have hwaiting : (s.line .waiting).length ≤ s.returned := Nat.le_add_left _ _
  have hsize : UInt64.size = 18446744073709551616 := rfl
  rw [Event.arrivals] at howned
  simp only [Event.Kind.tied, List.mem_cons, List.not_mem_nil, or_false] at hk
  rcases hk with rfl | rfl | rfl | rfl | rfl | rfl <;> omega

end Account

/-! ### Boards -/

/-- The boxes that own a buffer, in the inboxes and in the application. -/
def Board.owned (b : Board σ) : Nat :=
  (b.inboxNodes .ble ++ b.inboxNodes .system).reduceOption.length + b.boxNodes.length

theorem Board.Shows.owned_eq {p : Placement} {sw : Switches} {b : Board σ} {s : Account σ}
    (h : b.Shows p sw s) : b.owned = s.owned := by
  have hinboxes : b.inboxNodes .ble ++ b.inboxNodes .system =
      (s.inbox .ble ++ s.inbox .system).map some := by
    rw [h.inboxNodes_eq, h.inboxNodes_eq, List.map_append]
  have hsome : ∀ xs : List NodeIndex, (xs.map some).reduceOption = xs := fun xs => by
    rw [List.reduceOption, List.filterMap_map]
    exact List.filterMap_some
  rw [Board.owned, hinboxes, h.boxNodes_eq, hsome, Account.owned, ← List.length_append]

/-- The counters of rings agree with the peripheral. -/
structure RingsCounted (c : Counters) (panel : Panel) : Prop where
  command : c.commandsSent.toUInt32 = (panel.get .one).rings
  systemCommand : c.systemCommandsSent.toUInt32 = (panel.get .two).rings
  release : c.releaseDoorbells.toUInt32 = (panel.get .four).rings
  acl : c.aclSent.toUInt32 = (panel.get .six).rings
  /-- The other two channels are never rung. -/
  unused : (panel.get .three).rings = 0 ∧ (panel.get .five).rings = 0

/-- The counters say what some turns have done to a board. -/
structure Accurate (c : Counters) (ts : List (Turn σ)) (b : Board σ) : Prop where
  /-- Events that were received were taken or still wait. -/
  events : c.eventsReceived.toNat = ts.countP (·.takes .ble) + (b.host.receiver .ble).inbox.size
  systemEvents : c.systemEventsReceived.toNat =
    ts.countP (·.takes .system) + (b.host.receiver .system).inbox.size
  /-- What was received was given back or is still in a box. -/
  owned : c.eventsReceived.toNat + c.systemEventsReceived.toNat + c.tracesReceived.toNat =
    c.buffersReleased.toNat + b.owned
  /-- What was given back the peer took, or it is on its way there. -/
  released : c.buffersReleased.toNat = (ts.map Turn.reclaimed).sum +
    ((b.line (.shared .free)).length + (b.line .waiting).length)
  rejected : c.rejectedSends.toNat = ts.countP Turn.refused
  doorbells : c.releaseDoorbells ≤ c.buffersReleased

namespace Calls

variable {p : Placement} {sw : Switches} {note : Event → σ → σ} {counters : σ → Counters}
  {b₀ b : Board σ} {ts : List (Turn σ)}

/-- What is known of the events that were told since a boot. -/
structure Told (note : Event → σ → σ) (counters : σ → Counters) (s₀ : Account σ)
    (ts : List (Turn σ)) (s : Account σ) (events : List Event) : Prop where
  entry : s₀.Entry note 0 0 s (Receipt.of ts) events
  exact : (∀ t ∈ ts, t.Unwrapped counters) → ∀ k ∈ Event.Kind.tied,
    ((counters s.sink).count k).toNat = Event.tally k events

/-- A boot told nothing. -/
theorem told_booted (hzero : counters b₀.sink = {}) (m : Memory) : Told note counters
    (Account.booted m (b₀.panel.booted sw) b₀.boxes.size b₀.sink) []
    (Account.booted m (b₀.panel.booted sw) b₀.boxes.size b₀.sink) [] where
  entry := (Account.Silent.refl _).entry
  exact _ k _ := by
    show ((counters b₀.sink).count k).toNat = 0
    rw [hzero]
    cases k <;> rfl

/-- What one more call tells. -/
theorem Told.step (hcounts : Counts note counters) {s₀ s : Account σ} {events : List Event}
    {c : Call} {b' : Board σ} (hp : p.Valid) (h : Told note counters s₀ ts s events)
    (hshows : b.Shows p sw s) (hs : s.Proper []) (hc : c.Permitted b)
    (hshows' : b'.Shows p sw (c.apply p sw note s)) (hgives : c.gives = false) :
    ∃ events', Told note counters s₀ (ts ++ [⟨b, c, c.answer p sw s, b'⟩]) (c.apply p sw note s)
      events' := by
  have hnot : ∀ n, c ≠ .giveBack n := by
    rintro n rfl
    exact Bool.noConfusion hgives
  obtain ⟨new, hnew⟩ :=
    @Account.posts_call σ p note s sw c (Account.lt_length_of_permitted hshows hc) hnot
  refine ⟨events ++ new, Receipt.of_append ts _ ▸ h.entry.trans hnew, fun hall k hk => ?_⟩
  obtain ⟨hbefore, hlast⟩ := List.forall_mem_append.mp hall
  have hkinds : k ∈ Counters.kinds := Event.Kind.mem_kinds_of_mem_tied hk
  have hcount : (counters (c.apply p sw note s).sink).count k =
      (counters s.sink).count k + UInt64.ofNat (Event.tally k new) := by
    rw [hnew.sink, hcounts.foldl, Counters.count_foldl hkinds]
  have hle := List.forall_mem_singleton.mp hlast k hkinds
  have hlt := hnew.tally_lt hs (Account.proper_call hp hshows hs hc) (Account.reclaimed_le s c)
    (Bool.toNat_le _) hk
  rw [hshows.sink, hshows'.sink, hcount] at hle
  rw [hcount, toNat_add_ofNat_of_le hlt hle, h.exact hbefore k hk, Event.tally_append]

/-- What is known of the events that were told when no buffer came from nowhere. -/
theorem exists_told (hp : p.Valid) (hboxes : ∀ x ∈ b₀.boxes, x = Box.empty)
    (hcounts : Counts note counters) (hzero : counters b₀.sink = {})
    (h : Calls p sw note b₀ ts b) (hgives : ∀ t ∈ ts, t.call.gives = false) :
    ∃ s m events, b.Shows p sw s ∧ Told note counters
      (Account.booted m (b₀.panel.booted sw) b₀.boxes.size b₀.sink) ts s events := by
  obtain ⟨s, hshows, -, ⟨m, events, htold⟩, -⟩ := h.invariant_of hp hboxes (P := fun _ => True)
    (I := fun ts s => ∃ m events, Told note counters
      (Account.booted m (b₀.panel.booted sw) b₀.boxes.size b₀.sink) ts s events)
    (fun m => ⟨m, [], told_booted hzero m⟩)
    (fun ts b s c b' ⟨m, events, htold⟩ hshows hs hc hshows' hgives =>
      ⟨⟨m, htold.step hcounts hp hshows hs hc hshows' hgives⟩, trivial⟩) hgives
  exact ⟨s, m, events, hshows, htold⟩

/-- The counters of rings after a run. -/
theorem Told.ringsCounted (hcounts : Counts note counters) (hzero : counters b₀.sink = {})
    (hfresh : ∀ c, (b₀.panel.get c).rings = 0) {m : Memory} {s : Account σ} {events : List Event}
    (h : Told note counters (Account.booted m (b₀.panel.booted sw) b₀.boxes.size b₀.sink) ts s
      events) : RingsCounted (counters s.sink) s.panel := by
  have hrings : ∀ c, (s.panel.get c).rings = UInt32.ofNat (Event.rings c events) := fun c => by
    have hbooted : ((b₀.panel.booted sw).get c).rings = (b₀.panel.get c).rings :=
      congrArg Outbound.rings (Panel.outbound_booted sw b₀.panel c)
    refine (h.entry.rings c).trans ?_
    show ((b₀.panel.booted sw).get c).rings + _ = _
    rw [hbooted, hfresh, UInt32.zero_add]
  have hcount : ∀ k ∈ Counters.kinds,
      ((counters s.sink).count k).toUInt32 = UInt32.ofNat (Event.tally k events) := fun k hk => by
    have hsink : counters s.sink = events.foldl Counters.record {} := by
      rw [h.entry.sink, hcounts.foldl]
      exact congrArg (events.foldl Counters.record ·) hzero
    have hnone : (({} : Counters).count k) = 0 := by cases k <;> rfl
    rw [hsink, Counters.count_foldl hk, hnone, UInt64.zero_add, UInt64.toUInt32_ofNat']
  have hrung : ∀ k ∈ Counters.kinds, ∀ c, k.bell = some c →
      ((counters s.sink).count k).toUInt32 = (s.panel.get c).rings := fun k hk c hbell => by
    rw [hcount k hk, hrings, Event.rings_eq_tally hbell]
  have hsilent : ∀ c, (∀ k : Event.Kind, k.bell ≠ some c) → (s.panel.get c).rings = 0 :=
    fun c hc => by rw [hrings, Event.rings_eq_zero hc]; rfl
  exact ⟨hrung .commandSent (by decide) _ rfl, hrung .systemCommandSent (by decide) _ rfl,
    hrung .releaseRung (by decide) _ rfl, hrung .aclSent (by decide) _ rfl,
    hsilent .three (by rintro (_ | _) hk <;> cases hk),
    hsilent .five (by rintro (_ | _) hk <;> cases hk)⟩

/-- The other counters after a run in which none wraps. -/
theorem Told.accurate {m : Memory} {s : Account σ} {events : List Event}
    (hshows : b.Shows p sw s)
    (h : Told note counters (Account.booted m (b₀.panel.booted sw) b₀.boxes.size b₀.sink) ts s
      events) (hall : ∀ t ∈ ts, t.Unwrapped counters) : Accurate (counters b.sink) ts b := by
  have hexact := h.exact hall
  rw [← hshows.sink] at hexact
  have hpending : ∀ e, (b.host.receiver e).inbox.size = (s.inbox e).length := fun e => by
    rw [(hshows.inbox e).size_eq (by decide), List.length_map]
  have hline : ∀ l, l ≠ .shared .traces → (b.line l).length = (s.line l).length := fun l hl => by
    rw [hshows.line_eq_of_ne hl, List.length_map]
  have hreceived : ∀ e : Endpoint, ((counters b.sink).count e.received).toNat =
      ts.countP (·.takes e) + (b.host.receiver e).inbox.size := fun e => by
    rw [hpending, hexact _ (by cases e <;> decide)]
    exact (Nat.zero_add _).symm.trans (h.entry.inbox e)
  have hreleased := hexact .bufferReleased (by decide)
  have hrung := hexact .releaseRung (by decide)
  constructor
  case events => exact hreceived .ble
  case systemEvents => exact hreceived .system
  case owned =>
    have howned := h.entry.owned
    rw [Account.owned_booted, Nat.zero_add, Nat.zero_add] at howned
    show ((counters b.sink).count .eventReceived).toNat +
      ((counters b.sink).count .systemEventReceived).toNat +
      ((counters b.sink).count .traceReceived).toNat =
        ((counters b.sink).count .bufferReleased).toNat + b.owned
    rw [hexact .eventReceived (by decide), hexact .systemEventReceived (by decide),
      hexact .traceReceived (by decide), hreleased, hshows.owned_eq]
    exact howned
  case released =>
    rw [hline _ (by decide), hline _ (by decide)]
    exact hreleased.trans ((Nat.zero_add _).symm.trans h.entry.returned)
  case rejected => exact (hexact .sendRejected (by decide)).trans h.entry.refused
  case doorbells =>
    rw [UInt64.le_iff_toNat_le]
    refine (hrung.trans_le (Nat.le_add_right _ (s.line .waiting).length)).trans ?_
    exact (h.entry.rung.trans_eq (Nat.zero_add _)).trans_eq hreleased.symm

/-- **Counters never drift from what happened.** Whatever else the observer keeps, and whatever the
two cores do after a boot, the counters of rings agree with the peripheral modulo `2 ^ 32`; and if
no counter wraps and no buffer comes from nowhere, the others are exact. -/
theorem counters_exact (hp : p.Valid) (hboxes : ∀ x ∈ b₀.boxes, x = Box.empty)
    (hcounts : Counts note counters) (hzero : counters b₀.sink = {})
    (hfresh : ∀ c, (b₀.panel.get c).rings = 0) (h : Calls p sw note b₀ ts b)
    (hgives : ∀ t ∈ ts, t.call.gives = false) :
    RingsCounted (counters b.sink) b.panel ∧
      ((∀ t ∈ ts, t.Unwrapped counters) → Accurate (counters b.sink) ts b) := by
  obtain ⟨s, m, events, hshows, htold⟩ := h.exists_told hp hboxes hcounts hzero hgives
  refine ⟨?_, htold.accurate hshows⟩
  rw [hshows.sink, hshows.panel]
  exact htold.ringsCounted hcounts hzero hfresh

/-- A session with every kind of ring, a refused send, a trace record, an event that is given back
while the doorbell is busy, and one that still waits. -/
theorem counters_exact_session : ∃ ts b,
    Calls Placement.standard { traces := true } Demo.counting Demo.blank ts b ∧
    ts.map (·.call) = [.sendCommand 0x0C03 [], .sendSystemCommand 0xFC66 [],
      .sendSystemCommand 0xFC66 [], .sendAcl 0x40 [2, 1], .deliverEvent 15 [0, 1],
      .deliverEvent 14 [2], .deliverTrace [7], .receiveInterrupt, .takeEvent .ble 0,
      .releaseBox 0, .reclaim, .transmitInterrupt].map Call.operation ∧
    (∀ t ∈ ts, t.call.gives = false ∧ t.Unwrapped Demo.Console.counters) ∧
    b.sink.counters =
      { commandsSent := 1, aclSent := 1, eventsReceived := 2, buffersReleased := 2,
        releaseDoorbells := 2, releasesDeferred := 1, systemCommandsSent := 1,
        tracesReceived := 1, rejectedSends := 1 } ∧
    RingsCounted b.sink.counters b.panel ∧ Accurate b.sink.counters ts b := by
  obtain ⟨⟨ts, b⟩, hturns, heq⟩ := Option.map_eq_some_iff.mp (show
    (Call.turns Placement.standard { traces := true } Demo.counting
      ([.sendCommand 0x0C03 [], .sendSystemCommand 0xFC66 [], .sendSystemCommand 0xFC66 [],
        .sendAcl 0x40 [2, 1], .deliverEvent 15 [0, 1], .deliverEvent 14 [2], .deliverTrace [7],
        .receiveInterrupt, .takeEvent .ble 0, .releaseBox 0, .reclaim,
        .transmitInterrupt].map Call.operation) Demo.blank).map (fun x =>
          (decide (∀ t ∈ x.1, t.call.gives = false ∧ t.Unwrapped Demo.Console.counters),
            x.2.sink.counters)) =
      some (true,
        { commandsSent := 1, aclSent := 1, eventsReceived := 2, buffersReleased := 2,
          releaseDoorbells := 2, releasesDeferred := 1, systemCommandsSent := 1,
          tracesReceived := 1, rejectedSends := 1 }) from by decide +kernel)
  obtain ⟨hall, hcounters⟩ := Prod.mk.inj heq
  have hturn := of_decide_eq_true hall
  obtain ⟨h, hcalls⟩ := of_turns hturns
  obtain ⟨hrings, haccurate⟩ := counters_exact Placement.valid_standard Demo.boxes_blank
    Demo.counts_counting rfl (fun c => congrArg Outbound.rings (Demo.outbound_blank c)) h
    fun t ht => (hturn t ht).1
  exact ⟨ts, b, h, hcalls, hturn, hcounters, hrings, haccurate fun t ht => (hturn t ht).2⟩

end Calls

end InterCore
