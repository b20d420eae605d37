import InterCore.Proofs.Calls

/-!
# Wake-ups

A buffer that waits for the other core has a wake-up on its way. What lies in the shared free queue
is announced by the release doorbell, what lies in the local queue keeps the transmit interrupt
unmasked, and what the peer has queued is announced on its channel. No doorbell rings for nothing,
and none rings twice for the same.

## Main definitions

* `Board.SameQueue`: two boards with the same shared queue, its links in memory included.
* `Turn.findsRelease`: the peer looks for given-back buffers and finds the doorbell rung.

## Main results

* `Calls.no_buffer_stranded`: the doorbells and masks on every board of a run.
-/

namespace InterCore

variable {σ : Type}

/-- Two boards have the same shared queue: the same members, and the same links of its head. -/
structure Board.SameQueue (p : Placement) (q : Queue) (b b' : Board σ) : Prop where
  members : b'.line (.shared q) = b.line (.shared q)
  next : b'.memory.next (p.address (.queue q)) = b.memory.next (p.address (.queue q))
  prev : b'.memory.prev (p.address (.queue q)) = b.memory.prev (p.address (.queue q))

namespace Board.Shows

variable {p : Placement} {sw : Switches} {b b' : Board σ} {s s' : Account σ} (h : b.Shows p sw s)
include h

theorem line_ne_nil_iff {l : Line} (hl : l ∈ Line.made sw.traces) :
    b.line l ≠ [] ↔ s.line l ≠ [] := by
  rw [h.ready.line_eq h.valid hl, ne_eq, List.map_eq_nil_iff]

/-- The links of the head of a queue lead to its first member and to its last one. -/
theorem headLinks {q : Queue} (hq : Line.shared q ∈ Line.made sw.traces) :
    b.memory.next (p.address (.queue q)) =
        p.arena.locate ((s.line (.shared q)).headD (Line.shared q).head) ∧
      b.memory.prev (p.address (.queue q)) =
        p.arena.locate ((s.line (.shared q)).getLastD (Line.shared q).head) := by
  have hmem : ((Line.shared q).head, s.line (.shared q)) ∈ chains sw.traces s.line :=
    List.mem_map.mpr ⟨_, hq, rfl⟩
  have hfirst : Chain.Represents p.arena b.memory (Line.shared q).head
      ([] ++ s.line (.shared q)) := h.carries.chains.represents _ hmem
  have hlast : Chain.Represents p.arena b.memory (Line.shared q).head
      (s.line (.shared q) ++ []) := by
    rw [List.append_nil]
    exact h.carries.chains.represents _ hmem
  rw [h.valid.address_queue]
  exact ⟨(Chain.represents_append.mp hfirst).2.2.next, (Chain.represents_append.mp hlast).2.2.prev⟩

/-- Equal lines have equal links. -/
theorem sameQueue (h' : b'.Shows p sw s') {q : Queue} (hq : Line.shared q ∈ Line.made sw.traces)
    (hline : s'.line (.shared q) = s.line (.shared q)) : SameQueue p q b b' where
  members := by
    rw [h.ready.line_eq h.valid hq, h'.ready.line_eq h'.valid hq, hline]
  next := by rw [(h.headLinks hq).1, (h'.headLinks hq).1, hline]
  prev := by rw [(h.headLinks hq).2, (h'.headLinks hq).2, hline]

end Board.Shows

/-- The peer looks for given-back buffers and finds the doorbell rung. -/
def Turn.findsRelease (t : Turn σ) : Bool :=
  t.call = .operation .reclaim && (t.before.panel.get .release).hostFlag

/-- Whatever waits for the other core has a wake-up on its way, on a board that calls led to. -/
structure Awake (p : Placement) (sw : Switches) (ts : List (Turn σ)) (b : Board σ) : Prop where
  /-- The shared free queue holds something exactly while its doorbell is set. -/
  announced : b.line (.shared .free) ≠ [] ↔ (b.panel.get .release).hostFlag = true
  /-- The host notes that buffers wait exactly while the transmit interrupt is unmasked. -/
  marked : b.host.releasePending = true ↔ (b.panel.get .release).txEnabled = true
  /-- It does both while the local queue holds something. -/
  awaited : b.line .waiting ≠ [] →
    b.host.releasePending = true ∧ (b.panel.get .release).txEnabled = true
  /-- Only the peer changed the shared free queue while its doorbell was set. -/
  shielded : ∀ t ∈ ts, t.call ≠ .operation .reclaim →
    (t.before.panel.get .release).hostFlag = true → Board.SameQueue p .free t.before t.after
  /-- The doorbell rang once for each look of the peer that found it set, and once more if it is. -/
  counted : (b.panel.get .release).rings = UInt32.ofNat
    (ts.countP Turn.findsRelease + (b.panel.get .release).hostFlag.toNat)
  /-- What the peer has queued is announced on its channel. -/
  signalled : ∀ f : Feed, (f = .traces → sw.traces = true) → b.line (.shared f.queue) ≠ [] →
    (b.panel.get f.channel).peerFlag = true

namespace Calls

variable {p : Placement} {sw : Switches} {note : Event → σ → σ} {b₀ b : Board σ}
  {ts : List (Turn σ)}

/-- The account of a boot has nothing that waits. -/
theorem armed_booted (m : Memory) :
    (Account.booted m (b₀.panel.booted sw) b₀.boxes.size b₀.sink).release.Armed :=
  ⟨fun h => absurd rfl h, fun h => absurd rfl h, fun h => absurd h Bool.false_ne_true⟩

theorem exact_booted (hfresh : (b₀.panel.get .release).outbound = {}) (m : Memory) :
    (Account.booted m (b₀.panel.booted sw) b₀.boxes.size b₀.sink).release.Exact 0 := by
  have hbell : (Account.booted m (b₀.panel.booted sw) b₀.boxes.size b₀.sink).release =
      ⟨[], [], false, {}⟩ :=
    congrArg (Release.mk [] [] false) ((Panel.outbound_booted sw b₀.panel .release).trans hfresh)
  rw [hbell]
  exact ⟨fun h => absurd h Bool.false_ne_true, fun h => absurd h Bool.false_ne_true, rfl⟩

/-- What is known of given-back buffers after calls that hand nothing over without a ring. -/
theorem exists_exact (hp : p.Valid) (hboxes : ∀ x ∈ b₀.boxes, x = Box.empty)
    (hfresh : (b₀.panel.get .release).outbound = {}) (h : Calls p sw note b₀ ts b)
    (hflush : ∀ t ∈ ts, t.call ≠ .flush) :
    ∃ s, b.Shows p sw s ∧ s.Proper [] ∧
      (s.release.Armed ∧ s.release.Exact (ts.countP Turn.findsRelease)) ∧
      ∀ t ∈ ts, t.call ≠ .operation .reclaim → (t.before.panel.get .release).hostFlag = true →
        Board.SameQueue p .free t.before t.after := by
  have hfree : Line.shared .free ∈ Line.made sw.traces := Line.mem_made_of_ne _ (by decide)
  refine h.invariant_of hp hboxes
    (I := fun ts s => s.release.Armed ∧ s.release.Exact (ts.countP Turn.findsRelease))
    (fun m => ⟨armed_booted m, exact_booted hfresh m⟩)
    (fun ts b s c b' hI hshows hs _ hshows' hc => ?_) hflush
  have hrelease := (Account.call_effect sw note hp hs c).release
  refine ⟨⟨Call.armed hc hrelease hI.1, ?_⟩, fun hne hflag => ?_⟩
  · rw [Turn.countP_append, Turn.findsRelease, hshows.panel]
    exact Call.exact hc hrelease hI.2
  · rw [hshows.panel] at hflag
    exact hshows.sameQueue hshows' hfree (Call.held hc hrelease hne hflag)

/-- What the peer has queued is announced. -/
theorem exists_announced (hp : p.Valid) (hboxes : ∀ x ∈ b₀.boxes, x = Box.empty)
    (h : Calls p sw note b₀ ts b) :
    ∃ s, b.Shows p sw s ∧ s.Proper [] ∧ ∀ f, (s.intake f).Announced :=
  h.invariant hp hboxes (I := fun _ s => ∀ f, (s.intake f).Announced)
    (fun _ _ h => absurd rfl h) fun _ _ _ c _ hI _ hs _ _ f =>
      ((Account.call_effect sw note hp hs c).intake f).announced (hI f)

/-- **No buffer is stranded** after a boot on a fresh release channel, as long as nobody hands
buffers over without a ring. -/
theorem no_buffer_stranded (hp : p.Valid) (hboxes : ∀ x ∈ b₀.boxes, x = Box.empty)
    (hfresh : (b₀.panel.get .release).outbound = {}) (h : Calls p sw note b₀ ts b)
    (hflush : ∀ t ∈ ts, t.call ≠ .flush) : Awake p sw ts b := by
  obtain ⟨s, hshows, -, ⟨harmed, hexact⟩, hshielded⟩ :=
    h.exists_exact hp hboxes hfresh hflush
  obtain ⟨s', hshows', -, hannounced⟩ := h.exists_announced hp hboxes
  have hfree := hshows.line_ne_nil_iff (l := .shared .free) (Line.mem_made_of_ne _ (by decide))
  have hwaiting := hshows.line_ne_nil_iff (l := .waiting) (Line.mem_made_of_ne _ (by decide))
  have hpending : b.host.releasePending = s.release.pending :=
    congrArg Flags.releasePending hshows.flags
  have hmarked : s.release.pending = true ↔ s.release.bell.txEnabled = true :=
    ⟨harmed.marked, hexact.unmasked⟩
  constructor
  case announced =>
    rw [hfree, hshows.panel]
    exact ⟨harmed.announced, hexact.filled⟩
  case marked =>
    rw [hpending, hshows.panel]
    exact hmarked
  case awaited =>
    rw [hwaiting, hpending, hshows.panel]
    exact fun hne => ⟨hmarked.mpr (harmed.awaited hne), harmed.awaited hne⟩
  case shielded => exact hshielded
  case counted =>
    rw [hshows.panel]
    exact hexact.counted
  case signalled =>
    intro f hf hne
    have hmade : Line.shared f.queue ∈ Line.made sw.traces :=
      Line.mem_made_iff.mpr fun heq => hf (Feed.queue_inj.mp (Line.shared.inj heq))
    rw [hshows'.panel]
    exact hannounced f ((hshows'.line_ne_nil_iff hmade).mp hne)

/-- No buffer is stranded where a box is released before the peer has consumed the ring of the one
before. -/
theorem no_buffer_stranded_session : ∃ ts b,
    Calls Placement.standard {} (fun _ c => c) Demo.blank ts b ∧
    ts.map (·.call) = [.deliverEvent 15 [0, 1], .deliverEvent 14 [2], .fetchEvents .ble,
      .takeEvent .ble 0, .newBox, .takeEvent .ble 1, .releaseBox 0, .releaseBox 1, .reclaim,
      .transmitInterrupt].map Call.operation ∧
    Awake Placement.standard {} ts b := by
  obtain ⟨ts, b, h, hcalls⟩ : ∃ ts b,
      Calls Placement.standard {} (fun _ c => c) Demo.blank ts b ∧
      ts.map (·.call) = [.deliverEvent 15 [0, 1], .deliverEvent 14 [2], .fetchEvents .ble,
        .takeEvent .ble 0, .newBox, .takeEvent .ble 1, .releaseBox 0, .releaseBox 1, .reclaim,
        .transmitInterrupt].map Call.operation :=
    exists_of_legal Placement.valid_standard Demo.boxes_blank (by decide) (by decide)
  exact ⟨ts, b, h, hcalls,
    no_buffer_stranded Placement.valid_standard Demo.boxes_blank (Demo.outbound_blank _) h
      (Turn.call_ne hcalls (by decide))⟩

end Calls

end InterCore
