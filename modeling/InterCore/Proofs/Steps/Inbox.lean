import InterCore.Host.Interrupt
import InterCore.Proofs.Message
import InterCore.Proofs.Steps.Boxes

/-!
# Receiving events, on accounts

What the interrupt routine of an endpoint, the application taking an event, and the discarding of
traces do to an account. A loop over a shared queue takes its buffers one after the other, in order,
and ends when none is left.

## Main definitions

* `Account.fetchEvents`: everything in the shared queue of an endpoint moves to its inbox.
* `Account.takeEvent`: the oldest event of an inbox moves into a box of the application.
* `Account.discardTraces`: every trace record is given back.
* `Board.LeadsTo`: what a loop over a line has before it.

## Main results

* `Board.Yields.drain`: a loop over a line does its round once for every buffer.
* `Board.Shows.fetchEvents`, `Board.Shows.takeEvent`, `Board.Shows.discardTraces`: the programs of
  the host do this.
-/

namespace InterCore

open Memory

variable {σ : Type}

/-! ### Inboxes of a host -/

namespace Host

open Board

/-- The host with another inbox. -/
def withInbox (h : Host) (e : Endpoint) (ring : Inbox) : Host :=
  h.setReceiver e { h.receiver e with inbox := ring }

@[simp] theorem receiver_withInbox (h : Host) (e : Endpoint) (ring : Inbox) :
    (h.withInbox e ring).receiver e = { h.receiver e with inbox := ring } := by
  cases e <;> rfl

@[simp] theorem withInbox_withInbox (h : Host) (e : Endpoint) (ring ring' : Inbox) :
    (h.withInbox e ring).withInbox e ring' = h.withInbox e ring' := by
  cases e <;> rfl

variable (e : Endpoint) (c : UInt64) (x : Box) (b : Board σ)

theorem run_inbox : (inbox e).run b = .ok (b.host.receiver e).inbox b := rfl

theorem run_modifyInbox (f : Inbox → Inbox) : (modifyInbox e f).run b =
    .ok () { b with host := b.host.withInbox e (f (b.host.receiver e).inbox) } := rfl

theorem run_box_inbox :
    (box (.inbox e c)).run b = .ok ((b.host.receiver e).inbox.slot c) b := rfl

theorem run_setBox_inbox : (setBox (.inbox e c) x).run b =
    .ok () { b with host := b.host.withInbox e ((b.host.receiver e).inbox.setSlot c x) } := rfl

theorem run_setBox_application (i : Nat) : (setBox (.application i) x).run b =
    .ok () { b with boxes := b.boxes.setIfInBounds i x } := rfl

theorem run_takeBox_inbox : (takeBox (.inbox e c)).run b =
    .ok ((b.host.receiver e).inbox.slot c)
      { b with host := b.host.withInbox e ((b.host.receiver e).inbox.setSlot c Box.empty) } := rfl

variable {e c x b}

/-- Releasing an empty box does nothing. -/
theorem run_releaseBox_of_none (observer : Observer σ) {r : BoxRef}
    (hbox : (box r).run b = .ok x b) (hx : x.node = none) :
    (releaseBox observer r).run b = .ok () b := by
  rw [releaseBox, run_bind_ok hbox, hx, EStateM.run_pure]

/-- An empty slot of an inbox is filled. -/
theorem run_assignBox_inbox (observer : Observer σ)
    (hslot : ((b.host.receiver e).inbox.slot c).node = none) :
    (assignBox observer (.inbox e c) x).run b = .ok ()
      { b with host := b.host.withInbox e ((b.host.receiver e).inbox.setSlot c x) } := by
  rw [assignBox, run_bind_ok (run_releaseBox_of_none observer (run_box_inbox e c b) hslot),
    run_setBox_inbox]

section Delivery

variable {pending : List Box} (observer : Observer σ)
  (h : (b.host.receiver e).inbox.Holds Box.empty pending)
include h

/-- A box is appended to an inbox that has room for it. -/
theorem run_deliverBox (hroom : pending.length < ringCapacity 5) :
    ∃ ring : Inbox, (deliverBox observer e x).run b =
        .ok true { b with host := b.host.withInbox e ring } ∧
      ring.Holds Box.empty (pending ++ [x]) ∧ ring.head = (b.host.receiver e).inbox.head := by
  refine ⟨_, ?_, h.push (by decide) hroom x, rfl⟩
  have hfull : (b.host.receiver e).inbox.isFull = false := by
    rw [h.isFull_eq (by decide), decide_eq_false_iff_not]
    exact Nat.ne_of_lt hroom
  have hassign := run_assignBox_inbox (x := x) observer (congrArg Box.node (h.slot_tail hroom))
  rw [deliverBox, run_bind_ok (run_inbox e b), hfull, if_neg Bool.false_ne_true,
    run_bind_ok hassign, run_bind_ok (run_modifyInbox e _ _), EStateM.run_pure,
    receiver_withInbox, withInbox_withInbox]

/-- A full inbox takes no box. -/
theorem run_deliverBox_full (hfull : pending.length = ringCapacity 5) :
    (deliverBox observer e x).run b = .ok false b := by
  have hisFull : (b.host.receiver e).inbox.isFull = true := by
    rw [h.isFull_eq (by decide), decide_eq_true hfull]
  rw [deliverBox, run_bind_ok (run_inbox e b), if_pos hisFull, EStateM.run_pure]

end Delivery

end Host

namespace Account

variable (p : Placement) (note : Event → σ → σ) (e : Endpoint) (s : Account σ)

/-- The message in the packet of a buffer. -/
def message (n : NodeIndex) : Message := Message.load s.bytes (p.arena.locate n)

/-- What the observer is told about an event that reached the inbox. -/
def arrival (x : Message) : Event where
  kind := e.received
  channel := e.channel.number
  length := x.length.toUInt64
  code := x.code

/-- What the observer is told about a trace record. -/
def sighting (x : Message) : Event where
  kind := .traceReceived
  channel := Channel.traces.number
  length := x.length.toUInt64
  code := x.kind

/-- The first buffer of the shared queue moves to the inbox. -/
def fetchOne (n : NodeIndex) : Account σ :=
  let s := s.setLine (.shared e.queue) (s.line (.shared e.queue)).tail
  (s.setInbox e (s.inbox e ++ [n])).tell note (arrival e (s.message p n))

/-- Everything in the shared queue moves to the inbox, and the flag of the peer is cleared. -/
def fetchEvents : Account σ :=
  ((s.line (.shared e.queue)).foldl (fetchOne p note e) s).modifyBell e.channel Bell.clear

/-- One more event was taken from the inbox. -/
def countTaken : Account σ :=
  { s with taken := Function.update s.taken e (s.taken e + 1) }

/-- The oldest event of the inbox moves into a box, which first gives back what it owned. -/
def takeEvent (i : Nat) : Account σ :=
  match s.inbox e with
  | [] => s
  | n :: ns =>
    let s := s.releaseBox note i
    ((s.setInbox e ns).countTaken e).setBox i (some n)

/-- The first trace record is reported and given back. -/
def discardOne (n : NodeIndex) : Account σ :=
  let s := s.setLine (.shared .traces) (s.line (.shared .traces)).tail
  (s.tell note (sighting (s.message p n))).giveBack note n

/-- Every trace record is reported and given back, and the flag of the peer is cleared. -/
def discardTraces : Account σ :=
  ((s.line (.shared .traces)).foldl (discardOne p note) s).modifyBell .traces Bell.clear

/-! ### Places -/

variable {p note e s} {n : NodeIndex} {xs held : List NodeIndex} {i : Nat}

theorem places_fetchOne (hl : s.line (.shared e.queue) = n :: xs) :
    (s.fetchOne p note e n).places.Perm s.places := by
  have htake := places_takeFirst hl
  rw [fetchOne, hl]
  exact (places_appendInbox (s.setLine (.shared e.queue) xs) e n).trans htake

/-- What is left in the shared queue. -/
theorem line_fetchOne : (s.fetchOne p note e n).line (.shared e.queue) =
    (s.line (.shared e.queue)).tail :=
  Function.update_self _ _ _

/-- What is left of the trace records. -/
theorem line_discardOne : (s.discardOne p note n).line (.shared .traces) =
    (s.line (.shared .traces)).tail := by
  rw [discardOne, giveBack_line (by decide) (by decide)]
  exact Function.update_self (Line.shared .traces) _ s.line

theorem places_discardOne (hl : s.line (.shared .traces) = n :: xs) :
    (s.discardOne p note n).places.Perm s.places := by
  have htake := places_takeFirst hl
  rw [discardOne, hl]
  exact places_giveBack.trans htake

/-- Rounds over a line do altogether what each of them does. -/
theorem foldl_line {R : Account σ → Account σ → Prop} (hrefl : ∀ s, R s s)
    (htrans : ∀ s₁ s₂ s₃, R s₁ s₂ → R s₂ s₃ → R s₁ s₃) {l : Line}
    {f : Account σ → NodeIndex → Account σ}
    (hf : ∀ s n xs, s.line l = n :: xs → R s (f s n) ∧ (f s n).line l = xs) (s : Account σ) :
    R s ((s.line l).foldl f s) := by
  generalize hxs : s.line l = xs
  induction xs generalizing s with
  | nil => exact hrefl s
  | cons n xs ih =>
    obtain ⟨hstep, hline⟩ := hf s n xs hxs
    exact htrans _ _ _ hstep (ih (f s n) hline)

/-- Rounds over a line that keep the places keep them altogether. -/
theorem places_foldl {l : Line} {f : Account σ → NodeIndex → Account σ}
    (hf : ∀ s n xs, s.line l = n :: xs → (f s n).places.Perm s.places ∧ (f s n).line l = xs)
    (s : Account σ) : ((s.line l).foldl f s).places.Perm s.places :=
  foldl_line (R := fun s s' => s'.places.Perm s.places) (fun _ => .refl _)
    (fun _ _ _ h₁ h₂ => h₂.trans h₁) hf s

theorem places_fetchEvents : (s.fetchEvents p note e).places.Perm s.places :=
  places_foldl (fun _ _ _ hl => ⟨places_fetchOne hl, by rw [line_fetchOne, hl, List.tail_cons]⟩) s

theorem places_discardTraces : (s.discardTraces p note).places.Perm s.places :=
  places_foldl (fun _ _ _ hl => ⟨places_discardOne hl, by
    rw [line_discardOne, hl, List.tail_cons]⟩) s

theorem places_takeEvent (hi : i < s.boxes.length) :
    (s.takeEvent note e i).places.Perm s.places := by
  rw [takeEvent]
  split
  · exact .refl _
  · next n ns he =>
    have he' : (s.releaseBox note i).inbox e = n :: ns := by rw [inbox_releaseBox, he]
    have hempty : ((s.releaseBox note i).setInbox e ns).box i = none := box_releaseBox_self
    have hi' : i < ((s.releaseBox note i).setInbox e ns).boxes.length := by
      exact length_boxes_releaseBox.symm ▸ hi
    exact (places_fillBox hi' hempty n).trans ((places_takeInbox he').trans places_releaseBox)

/-- No inbox has more buffers than there are event slots. -/
theorem Proper.length_inbox_le (h : s.Proper held) (e : Endpoint) : (s.inbox e).length ≤ 7 := by
  have hsub : (s.inbox e).Sublist s.places := by
    have hboth : (s.inbox e).Sublist (s.inbox .ble ++ s.inbox .system) := by
      cases e
      · exact List.sublist_append_left _ _
      · exact List.sublist_append_right _ _
    exact hboth.trans ((List.sublist_append_right _ _).trans (List.sublist_append_left _ _))
  exact (hsub.subperm.trans ((List.sublist_append_right held _).subperm.trans h)).length_le

end Account

/-! ### Loops over a line -/

/-- The board shows an account in which the line `l` is `xs`, and a round for each of these leads to
the account `t`. -/
def Board.LeadsTo (p : Placement) (sw : Switches) (l : Line)
    (f : Account σ → NodeIndex → Account σ) (I : Account σ → Prop) (t : Account σ)
    (xs : List NodeIndex) (b : Board σ) : Prop :=
  ∃ s, b.Shows p sw s ∧ I s ∧ s.line l = xs ∧ xs.foldl f s = t

/-- A loop over a line does its round once for every buffer, in order. -/
theorem Board.Yields.drain {p : Placement} {sw : Switches} {l : Line} {round : BoardM σ Bool}
    {f : Account σ → NodeIndex → Account σ} {I : Account σ → Prop}
    (hnil : ∀ (b : Board σ) s, b.Shows p sw s → I s → s.line l = [] → Yields p sw round b false s)
    (hcons : ∀ (b : Board σ) s n xs, b.Shows p sw s → I s → s.line l = n :: xs →
      Yields p sw round b true (f s n))
    (hkeep : ∀ s n xs, I s → s.line l = n :: xs → I (f s n) ∧ (f s n).line l = xs)
    {b : Board σ} {s : Account σ} (h : b.Shows p sw s) (hI : I s) :
    Yields p sw (Board.drain round) b (s.line l).length ((s.line l).foldl f s) := by
  let t := (s.line l).foldl f s
  have hend : ∀ b', LeadsTo p sw l f I t [] b' →
      ∃ b₁, round.run b' = .ok false b₁ ∧ LeadsTo p sw l f I t [] b₁ := by
    rintro b' ⟨s', h', hI', hl, hfold⟩
    obtain ⟨b₁, hrun, h₁⟩ := hnil b' s' h' hI' hl
    exact ⟨b₁, hrun, s', h₁, hI', hl, hfold⟩
  have hstep : ∀ n xs b', LeadsTo p sw l f I t (n :: xs) b' →
      ∃ b₁, round.run b' = .ok true b₁ ∧ LeadsTo p sw l f I t xs b₁ := by
    rintro n xs b' ⟨s', h', hI', hl, hfold⟩
    obtain ⟨b₁, hrun, h₁⟩ := hcons b' s' n xs h' hI' hl
    obtain ⟨hI₁, hl₁⟩ := hkeep s' n xs hI' hl
    exact ⟨b₁, hrun, f s' n, h₁, hI₁, hl₁, hfold⟩
  have hstart : LeadsTo p sw l f I t (s.line l) b := ⟨s, h, hI, rfl, rfl⟩
  obtain ⟨b', hrun, s', h', -, -, rfl⟩ :=
    exists_run_drain hend hstep hstart (h.ready.length_lt_stepLimit l)
  exact ⟨b', hrun, h'⟩

namespace Board.Shows

variable {p : Placement} {sw : Switches} {b : Board σ} {s : Account σ} {n : NodeIndex}
  {xs : List NodeIndex} {e : Endpoint} {i : Nat} (note : Event → σ → σ) (h : b.Shows p sw s)
include h

/-- The packets lie as in the account. -/
theorem message_eq (hn : n ∈ slots) :
    Message.load b.memory (p.arena.locate n) = s.message p n :=
  Message.load_congr h.bytes fun _ hk =>
    Placement.not_linkByte_of_quiet (h.valid.quiet_packet hn hk)

/-- The host may change an inbox. -/
theorem withInbox (e : Endpoint) {ring : Inbox} {c : UInt64}
    (hring : ring.Holds Box.empty (xs.map fun n => Box.holding (some n))) (hhead : ring.head = c) :
    Shows p sw { b with host := b.host.withInbox e ring }
      { s with
        inbox := Function.update s.inbox e xs
        taken := Function.update s.taken e c } where
  valid := h.valid
  host := by cases e <;> exact { h.host with }
  carries := h.carries
  bytes := h.bytes
  panel := h.panel
  inbox e' := by
    have hother := h.inbox e'
    cases e <;> cases e' <;> first | exact hring | exact hother
  taken e' := by
    have hother := h.taken e'
    cases e <;> cases e' <;> first | exact hhead | exact hother
  boxes := h.boxes
  flags := by cases e <;> exact h.flags
  sink := h.sink

/-- A buffer moves to the end of the inbox, which has room for it. -/
theorem deliverBox (hs : s.Proper [n]) :
    Yields p sw (Host.deliverBox (Observer.passive note) e (Box.around n)) b true
      (s.setInbox e (s.inbox e ++ [n])) := by
  have hroom : ((s.inbox e).map fun n => Box.holding (some n)).length < ringCapacity 5 := by
    rw [List.length_map]
    exact Nat.lt_of_le_of_lt (hs.length_inbox_le e) (by decide)
  have hmap : ((s.inbox e).map fun n => Box.holding (some n)) ++ [Box.holding (some n)] =
      (s.inbox e ++ [n]).map fun n => Box.holding (some n) := by
    rw [List.map_append, List.map_singleton]
  obtain ⟨ring, hrun, hpush, hhead⟩ := Host.run_deliverBox (x := Box.holding (some n))
    (Observer.passive note) (h.inbox e) hroom
  rw [hmap] at hpush
  have hshows := h.withInbox e hpush (hhead.trans (h.taken e))
  rw [Function.update_eq_self] at hshows
  rw [Box.around_eq (hs.mem_slots List.mem_cons_self)]
  exact ⟨_, hrun, hshows⟩

/-- The first buffer of the shared queue moves to the inbox. -/
theorem fetchOne (hs : s.Proper []) (hl : s.line (.shared e.queue) = n :: xs) :
    Yields p sw (Host.fetchOne (Observer.passive note) e) b true (s.fetchOne p note e n) := by
  have hmade : Line.shared e.queue ∈ Line.made sw.traces :=
    Line.mem_made_of_ne _ (by cases e <;> decide)
  have hs₁ : (s.setLine (.shared e.queue) xs).Proper [n] := hs.of_perm (Account.places_takeFirst hl)
  have hn := hs₁.mem_slots List.mem_cons_self
  rw [Account.fetchOne, hl]
  refine Yields.get ?_
  refine (h.takeFirst hmade (h.host.receiver_queue e) hl).bind fun b₁ h₁ => ?_
  refine (h₁.address hn).bind fun b₂ h₂ => ?_
  refine Yields.get ?_
  refine (h₂.deliverBox note hs₁).bind fun b₃ h₃ => ?_
  show Yields p sw _ b₃ true (Account.tell _ note (Account.arrival e
    ((s.setLine (.shared e.queue) xs).message p n)))
  rw [← h₂.message_eq hn]
  exact (h₃.tell note _).bind fun b₄ h₄ => h₄.pure true

theorem fetchOne_nil (hl : s.line (.shared e.queue) = []) :
    Yields p sw (Host.fetchOne (Observer.passive note) e) b false s := by
  have hmade : Line.shared e.queue ∈ Line.made sw.traces :=
    Line.mem_made_of_ne _ (by cases e <;> decide)
  refine Yields.get ?_
  exact (h.takeFirst_nil hmade (h.host.receiver_queue e) hl).bind fun b₁ h₁ => h₁.pure false

/-- The loop that fetches events does a round for every event in the queue. -/
theorem drain_fetchOne (hs : s.Proper []) :
    Yields p sw (Board.drain (Host.fetchOne (Observer.passive note) e)) b
      (s.line (.shared e.queue)).length
      ((s.line (.shared e.queue)).foldl (Account.fetchOne p note e) s) :=
  @Yields.drain σ p sw (.shared e.queue) (Host.fetchOne (Observer.passive note) e)
    (Account.fetchOne p note e) (fun s => s.Proper [])
    (fun b s h _ hl => h.fetchOne_nil note hl) (fun b s n xs h hs hl => h.fetchOne note hs hl)
    (fun s n xs hs hl => ⟨hs.of_perm (Account.places_fetchOne hl), by
      rw [Account.line_fetchOne, hl, List.tail_cons]⟩) b s h hs

/-- **The interrupt routine of an endpoint moves everything from the shared queue to the inbox.** -/
theorem fetchEvents (hs : s.Proper []) :
    Yields p sw (Host.fetchEvents (Observer.passive note) e) b () (s.fetchEvents p note e) :=
  (h.drain_fetchOne note hs).bind fun _ h₁ => h₁.modifyBell _ _

/-! ### Traces -/

theorem discardOne (ht : sw.traces = true) (hs : s.Proper [])
    (hl : s.line (.shared .traces) = n :: xs) :
    Yields p sw (Host.discardOne (Observer.passive note)) b true (s.discardOne p note n) := by
  have hmade : Line.shared .traces ∈ Line.made sw.traces := Line.mem_made_iff.mpr fun _ => ht
  have hs₁ : (s.setLine (.shared .traces) xs).Proper [n] :=
    hs.of_perm (Account.places_takeFirst hl)
  have hn := hs₁.mem_slots List.mem_cons_self
  rw [Account.discardOne, hl]
  refine Yields.get ?_
  refine (h.takeFirst hmade (h.host.queue .traces) hl).bind fun b₁ h₁ => ?_
  refine (h₁.address hn).bind fun b₂ h₂ => ?_
  refine Yields.get ?_
  show Yields p sw _ b₂ true (Account.giveBack note (Account.tell _ note (Account.sighting
    ((s.setLine (.shared .traces) xs).message p n))) n)
  rw [← h₂.message_eq hn]
  refine (h₂.tell note _).bind fun b₃ h₃ => ?_
  exact (h₃.giveBack note hs₁).bind fun b₄ h₄ => h₄.pure true

theorem discardOne_nil (ht : sw.traces = true) (hl : s.line (.shared .traces) = []) :
    Yields p sw (Host.discardOne (Observer.passive note)) b false s := by
  have hmade : Line.shared .traces ∈ Line.made sw.traces := Line.mem_made_iff.mpr fun _ => ht
  refine Yields.get ?_
  exact (h.takeFirst_nil hmade (h.host.queue .traces) hl).bind fun b₁ h₁ => h₁.pure false

/-- The loop that discards traces does a round for every record in the queue. -/
theorem drain_discardOne (ht : sw.traces = true) (hs : s.Proper []) :
    Yields p sw (Board.drain (Host.discardOne (Observer.passive note))) b
      (s.line (.shared .traces)).length
      ((s.line (.shared .traces)).foldl (Account.discardOne p note) s) :=
  @Yields.drain σ p sw (.shared .traces) (Host.discardOne (Observer.passive note))
    (Account.discardOne p note) (fun s => s.Proper [])
    (fun b s h _ hl => h.discardOne_nil note ht hl)
    (fun b s n xs h hs hl => h.discardOne note ht hs hl)
    (fun s n xs hs hl => ⟨hs.of_perm (Account.places_discardOne hl), by
      rw [Account.line_discardOne, hl, List.tail_cons]⟩) b s h hs

/-- **The host reports every trace record and gives its buffer back.** -/
theorem discardTraces (ht : sw.traces = true) (hs : s.Proper []) :
    Yields p sw (Host.discardTraces (Observer.passive note)) b () (s.discardTraces p note) :=
  (h.drain_discardOne note ht hs).bind fun _ h₁ => h₁.modifyBell _ _

/-! ### The application -/

/-- **The application takes the oldest event of an inbox.** -/
theorem takeEvent (hs : s.Proper []) :
    Yields p sw (Host.takeEvent (Observer.passive note) e i) b (!(s.inbox e).isEmpty)
      (s.takeEvent note e i) := by
  have hempty := (h.inbox e).isEmpty_eq (by decide)
  rw [Account.takeEvent]
  cases hinbox : s.inbox e with
  | nil =>
    rw [hinbox, List.map_nil] at hempty
    refine ⟨b, ?_, h⟩
    rw [Host.takeEvent, run_bind_ok (Host.run_inbox e b), hempty]
    rfl
  | cons n ns =>
    rw [hinbox, List.map_cons] at hempty
    obtain ⟨b₁, hrun₁, h₁⟩ := h.releaseBox note hs (i := i)
    have hholds := h₁.inbox e
    rw [Account.inbox_releaseBox, hinbox, List.map_cons] at hholds
    have hhead : (b.host.receiver e).inbox.head = (b₁.host.receiver e).inbox.head := by
      rw [h.taken, h₁.taken, Account.taken_releaseBox]
    have hshows := (h₁.withInbox e (hholds.pop (by decide))
      (congrArg (· + 1) (h₁.taken e))).withBox i (some n)
    refine ⟨_, ?_, hshows⟩
    rw [Host.takeEvent, run_bind_ok (Host.run_inbox e b), hempty, hhead]
    have hmove : (Host.moveBox (Observer.passive note)
        (.inbox e (b₁.host.receiver e).inbox.head) (.application i)).run b = .ok ()
          { b₁ with
            host := b₁.host.withInbox e ((b₁.host.receiver e).inbox.setSlot
              (b₁.host.receiver e).inbox.head Box.empty)
            boxes := b₁.boxes.setIfInBounds i (Box.holding (some n)) } := by
      rw [Host.moveBox, if_pos BoxRef.noConfusion, run_bind_ok hrun₁,
        run_bind_ok (Host.run_takeBox_inbox e _ b₁), hholds.slot_head, Host.run_setBox_application]
    rw [List.isEmpty_cons, if_neg Bool.false_ne_true, run_bind_ok hmove,
      run_bind_ok (Host.run_modifyInbox e _ _), EStateM.run_pure, Host.receiver_withInbox,
      Host.withInbox_withInbox]
    rfl

end Board.Shows

end InterCore
