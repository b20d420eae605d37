import InterCore.Proofs.Calls

/-!
# What the observer is told

The observer is told of every ring, of every event that reaches an inbox, of every trace record and
every buffer that is given back, and of every send that is refused. So what it is told about a step
is tied to what the step moves and to what it answers: each entry in its books has a counterpart on
the board. Steps put their entries one after the other, so the balance of one step is the balance of
many.

## Main definitions

* `Event.tally`, `Event.rings`, `Event.arrivals`: how often something was told.
* `Receipt`: what the answers of some calls amount to.
* `Account.Entry`: what is told of a step balances with what it does.
* `Account.Posts`: some events balance with a step.

## Main results

* `Account.Posts.trans`: steps one after the other.
* `Account.posts_giveBack`: a buffer that leaves the hand is told of once.
* `Account.posts_call`: every call balances.
-/

namespace InterCore

variable {σ : Type}

/-! ### Rings -/

namespace Bell

theorem rings_acknowledge (b : Bell) : b.acknowledge.rings = b.rings := rfl

theorem rings_signal (b : Bell) : b.signal.rings = b.rings := rfl

theorem rings_clear (b : Bell) : b.clear.rings = b.rings := rfl

theorem rings_enableTx (on : Bool) (b : Bell) : (b.enableTx on).rings = b.rings := rfl

end Bell

/-! ### Events -/

/-- The channel that was rung, if a kind says so. -/
def Event.Kind.bell : Event.Kind → Option Channel
  | commandSent => some .bleCommand
  | systemCommandSent => some .systemCommand
  | releaseRung => some .release
  | aclSent => some .aclData
  | _ => none

/-- A ring of a channel is told of as one kind. -/
theorem Event.Kind.bell_inj {k k' : Event.Kind} {c : Channel} (h : k.bell = some c)
    (h' : k'.bell = some c) : k' = k := by
  cases k <;> cases h <;> cases k' <;> first | rfl | cases h'

namespace Event

/-- How many events are of a kind. -/
def tally (k : Event.Kind) (events : List Event) : Nat := events.countP (·.kind = k)

/-- How many events say that a channel was rung. -/
def rings (c : Channel) (events : List Event) : Nat := events.countP (·.kind.bell = some c)

/-- How many events say that a buffer came out of a queue that the peer fills. -/
def arrivals (events : List Event) : Nat :=
  tally .eventReceived events + tally .systemEventReceived events + tally .traceReceived events

variable (k : Event.Kind) (c : Channel) (xs ys : List Event)

theorem tally_append : tally k (xs ++ ys) = tally k xs + tally k ys := List.countP_append

theorem tally_cons (e : Event) :
    tally k (e :: xs) = tally k xs + if e.kind = k then 1 else 0 := by
  rw [tally, List.countP_cons]
  simp only [decide_eq_true_iff]
  rfl

theorem rings_append : rings c (xs ++ ys) = rings c xs + rings c ys := List.countP_append

theorem arrivals_append : arrivals (xs ++ ys) = arrivals xs + arrivals ys := by
  simp only [arrivals, tally_append]
  omega

theorem rings_singleton (e : Event) : rings c [e] = if e.kind.bell = some c then 1 else 0 := by
  rw [rings, List.countP_singleton]
  simp only [decide_eq_true_iff]

variable {k c xs}

/-- One kind at most says that a channel was rung. -/
theorem rings_eq_tally (h : k.bell = some c) : rings c xs = tally k xs := by
  refine List.countP_congr fun e _ => ?_
  rw [decide_eq_true_iff, decide_eq_true_iff]
  exact ⟨fun he => Event.Kind.bell_inj h he, fun he => he ▸ h⟩

theorem rings_eq_zero (h : ∀ k : Event.Kind, k.bell ≠ some c) : rings c xs = 0 :=
  List.countP_eq_zero.mpr fun e _ he => h e.kind (of_decide_eq_true he)

end Event

/-! ### Answers -/

/-- What the answers of some calls amount to. -/
structure Receipt where
  /-- The events that the application took from an inbox. -/
  taken : Endpoint → Nat := fun _ => 0
  /-- The buffers that the peer took back. -/
  reclaimed : Nat := 0
  /-- The sends that were refused. -/
  refused : Nat := 0

/-- What two lists of calls amount to. -/
def Receipt.add (x y : Receipt) : Receipt :=
  ⟨fun e => x.taken e + y.taken e, x.reclaimed + y.reclaimed, x.refused + y.refused⟩

namespace Call

/-- The call took an event from an inbox. -/
def takes (e : Endpoint) : Call → Answer → Bool
  | operation (.takeEvent e' _), .flag yes => decide (e' = e) && yes
  | _, _ => false

/-- How many buffers the peer took back in a call. -/
def reclaimed : Call → Answer → Nat
  | operation .reclaim, .count n => n
  | _, _ => 0

theorem reclaimed_of_ne {c : Call} (hc : c ≠ .operation .reclaim) (r : Answer) :
    c.reclaimed r = 0 := by
  cases c with
  | operation op => cases op <;> first | rfl | exact absurd rfl hc
  | _ => rfl

end Call

/-- A send was refused. -/
def Answer.refused : Answer → Bool
  | .sent (.error _) => true
  | _ => false

/-- What one call amounts to. -/
def Call.receipt (c : Call) (r : Answer) : Receipt :=
  ⟨fun e => (c.takes e r).toNat, c.reclaimed r, r.refused.toNat⟩

/-! ### Entries -/

namespace Account

/-- The buffers in the inboxes and in the boxes. -/
def owned (s : Account σ) : Nat :=
  ((s.inbox .ble ++ s.inbox .system) ++ s.boxes.reduceOption).length

/-- The buffers that were given back and that the peer has not taken. -/
def returned (s : Account σ) : Nat :=
  (s.line (.shared .free)).length + (s.line .waiting).length

/-- What is told of a step balances with what it does. Before the step `hand` buffers and after it
`hand'` buffers are in no place, because they are on their way. -/
structure Entry (note : Event → σ → σ) (hand : Nat) (s : Account σ) (hand' : Nat)
    (s' : Account σ) (x : Receipt) (events : List Event) : Prop where
  sink : s'.sink = events.foldl (fun y e => note e y) s.sink
  rings : ∀ c, (s'.panel.get c).rings =
    (s.panel.get c).rings + UInt32.ofNat (Event.rings c events)
  inbox : ∀ e : Endpoint, (s.inbox e).length + Event.tally e.received events =
    x.taken e + (s'.inbox e).length
  owned : hand + s.owned + Event.arrivals events =
    Event.tally .bufferReleased events + (hand' + s'.owned)
  returned : s.returned + Event.tally .bufferReleased events = x.reclaimed + s'.returned
  refused : Event.tally .sendRejected events = x.refused
  /-- A ring passes on at least one buffer that waited. -/
  rung : Event.tally .releaseRung events + (s'.line .waiting).length ≤
    (s.line .waiting).length + Event.tally .bufferReleased events

/-- Some events balance with a step. -/
def Posts (note : Event → σ → σ) (hand : Nat) (s : Account σ) (hand' : Nat) (s' : Account σ)
    (x : Receipt) : Prop :=
  ∃ events, Entry note hand s hand' s' x events

/-- A step tells nothing and moves no buffer into a place where it counts as something else. -/
structure Silent (s s' : Account σ) : Prop where
  sink : s'.sink = s.sink
  rings : ∀ c, (s'.panel.get c).rings = (s.panel.get c).rings
  inbox : s'.inbox = s.inbox
  owned : s'.owned = s.owned
  returned : s'.returned = s.returned
  waiting : (s'.line .waiting).length ≤ (s.line .waiting).length

variable {p : Placement} {sw : Switches} {note : Event → σ → σ} {s s' s'' : Account σ}
  {k k' k'' : Nat} {x y : Receipt} {e : Endpoint} {c : Channel} {n : NodeIndex}
  {xs : List NodeIndex} {i j : Nat}

/-- Entries one after the other. -/
theorem Entry.trans {events events' : List Event} (h : Entry note k s k' s' x events)
    (h' : Entry note k' s' k'' s'' y events') :
    Entry note k s k'' s'' (x.add y) (events ++ events') where
  sink := by rw [h'.sink, h.sink, List.foldl_append]
  rings c := by
    rw [h'.rings, h.rings, UInt32.add_assoc, ← UInt32.ofNat_add, Event.rings_append]
  inbox e := by
    have h₁ := h.inbox e
    have h₂ := h'.inbox e
    rw [Event.tally_append, Receipt.add]
    dsimp only
    omega
  owned := by
    have h₁ := h.owned
    have h₂ := h'.owned
    rw [Event.tally_append, Event.arrivals_append]
    omega
  returned := by
    have h₁ := h.returned
    have h₂ := h'.returned
    rw [Event.tally_append, Receipt.add]
    dsimp only
    omega
  refused := by rw [Event.tally_append, h.refused, h'.refused, Receipt.add]
  rung := by
    have h₁ := h.rung
    have h₂ := h'.rung
    rw [Event.tally_append, Event.tally_append]
    omega

theorem Silent.entry (h : Silent s s') : Entry note k s k s' {} [] where
  sink := h.sink
  rings c := by rw [h.rings]; exact (UInt32.add_zero _).symm
  inbox e := by rw [h.inbox]; exact Nat.add_comm _ _
  owned := by rw [h.owned]; exact Nat.add_comm _ _
  returned := by rw [h.returned]; exact Nat.add_comm _ _
  refused := rfl
  rung := by
    have h₁ := h.waiting
    exact (Nat.zero_add _).trans_le h₁

theorem Silent.refl (s : Account σ) : Silent s s := ⟨rfl, fun _ => rfl, rfl, rfl, rfl, le_rfl⟩

theorem Silent.trans (h : Silent s s') (h' : Silent s' s'') : Silent s s'' where
  sink := h'.sink.trans h.sink
  rings c := (h'.rings c).trans (h.rings c)
  inbox := h'.inbox.trans h.inbox
  owned := h'.owned.trans h.owned
  returned := h'.returned.trans h.returned
  waiting := h'.waiting.trans h.waiting

namespace Posts

theorem of_silent (h : Silent s s') : Posts note k s k s' {} := ⟨[], h.entry⟩

theorem refl (s : Account σ) : Posts note k s k s {} := of_silent (.refl s)

/-- Steps one after the other. -/
theorem trans (h : Posts note k s k' s' x) (h' : Posts note k' s' k'' s'' y) :
    Posts note k s k'' s'' (x.add y) := by
  obtain ⟨events, h⟩ := h
  obtain ⟨events', h'⟩ := h'
  exact ⟨events ++ events', h.trans h'⟩

/-- A step after one that answers nothing of interest. -/
theorem after (h : Posts note k s k' s' {}) (h' : Posts note k' s' k'' s'' x) :
    Posts note k s k'' s'' x := by
  have hadd : Receipt.add {} x = x := by simp only [Receipt.add, Nat.zero_add]
  exact hadd ▸ h.trans h'

end Posts

/-! ### Steps that nobody is told about -/

theorem silent_modifyBell {f : Bell → Bell} (hf : ∀ b, (f b).rings = b.rings) (c : Channel)
    (s : Account σ) : Silent s (s.modifyBell c f) :=
  ⟨rfl, fun _ => Panel.modify_keeps hf, rfl, rfl, rfl, le_rfl⟩

theorem silent_modifyFlags (f : Flags → Flags) (s : Account σ) : Silent s (s.modifyFlags f) :=
  ⟨rfl, fun _ => rfl, rfl, rfl, rfl, le_rfl⟩

theorem silent_modifyBytes (f : Memory → Memory) (s : Account σ) : Silent s (s.modifyBytes f) :=
  ⟨rfl, fun _ => rfl, rfl, rfl, rfl, le_rfl⟩

theorem line_setLine_self {l : Line} : (s.setLine l xs).line l = xs := Function.update_self _ _ _

theorem line_setLine_of_ne {l l' : Line} (h : l ≠ l') : (s.setLine l xs).line l' = s.line l' :=
  Function.update_of_ne h.symm _ _

/-- The queues that the peer fills count as no place that the observer hears of. -/
theorem silent_setLine {l : Line} (hfree : l ≠ .shared .free) (hwaiting : l ≠ .waiting)
    (xs : List NodeIndex) (s : Account σ) : Silent s (s.setLine l xs) where
  sink := rfl
  rings _ := rfl
  inbox := rfl
  owned := rfl
  returned := by
    rw [returned, returned, line_setLine_of_ne hfree, line_setLine_of_ne hwaiting]
  waiting := by rw [line_setLine_of_ne hwaiting]

theorem silent_deliver {q : Queue} (hq : q ≠ .free) (kind : PacketKind) (code : UInt8)
    (data : List UInt8) (c : Channel) : Silent s (s.deliver p q kind code data c) := by
  have hfree : Line.shared q ≠ .shared .free := fun h => hq (Line.shared.inj h)
  rw [deliver]
  split
  · exact .refl s
  · next n ns _ =>
    split
    · exact .refl s
    · have htaken : Silent s { s with free := ns } := ⟨rfl, fun _ => rfl, rfl, rfl, rfl, le_rfl⟩
      exact htaken.trans ((silent_modifyBytes _ _).trans
        ((silent_setLine hfree Line.noConfusion _ _).trans
          (silent_modifyBell Bell.rings_signal c _)))

theorem silent_takePacket (c : Channel) : Silent s (s.takePacket c) := by
  rw [takePacket]
  split
  · exact silent_modifyBell Bell.rings_acknowledge c s
  · exact .refl s

theorem silent_answerSystemCommand (status : UInt8) :
    Silent s (s.answerSystemCommand p status) := by
  rw [answerSystemCommand]
  split
  · exact (silent_modifyBytes _ s).trans (silent_modifyBell Bell.rings_acknowledge _ _)
  · exact .refl s

theorem silent_writeCommandStatus (status : UInt8) (opcode : UInt16) (s : Account σ) :
    Silent s (s.writeCommandStatus p status opcode) :=
  silent_modifyBytes _ s

theorem silent_awaitRelease (s : Account σ) : Silent s s.awaitRelease :=
  (silent_modifyFlags _ s).trans (silent_modifyBell (Bell.rings_enableTx true) _ _)

/-- Waiting buffers that are handed over stay given back. -/
theorem silent_handOver (s : Account σ) : Silent s s.handOver where
  sink := rfl
  rings _ := rfl
  inbox := rfl
  owned := rfl
  returned := by simp [returned, handOver, flushed, InterCore.setLine, Function.update]
  waiting := by simp [handOver, flushed, InterCore.setLine]

theorem length_places (s : Account σ) :
    s.places.length = s.free.length + (Line.all.flatMap s.line).length + s.owned := by
  simp only [places, owned, List.length_append, Nat.add_assoc]

/-- While the lines and the slots of the peer stay as they are, buffers come and go in inboxes and
boxes. -/
theorem owned_add {a b : Nat} (hplaces : s'.places.length + a = s.places.length + b)
    (hfree : s'.free = s.free) (hline : s'.line = s.line) : s'.owned + a = s.owned + b := by
  rw [length_places, length_places, hfree, hline, Nat.add_assoc _ s'.owned,
    Nat.add_assoc _ s.owned] at hplaces
  exact Nat.add_left_cancel hplaces

/-- Moves between boxes. -/
theorem silent_of_places (hplaces : s'.places.Perm s.places) (hfree : s'.free = s.free)
    (hline : s'.line = s.line) (hinbox : s'.inbox = s.inbox) (hsink : s'.sink = s.sink)
    (hpanel : s'.panel = s.panel) : Silent s s' where
  sink := hsink
  rings c := by rw [hpanel]
  inbox := hinbox
  owned := owned_add (a := 0) (b := 0) hplaces.length_eq hfree hline
  returned := by rw [returned, returned, hline]
  waiting := by rw [hline]

theorem silent_addBox (s : Account σ) : Silent s (s.addBox none) :=
  silent_of_places (s.places_addBox none) rfl rfl rfl rfl rfl

theorem silent_constructBox (i : Nat) (s : Account σ) : Silent s (s.constructBox i) :=
  silent_of_places (s.places_constructBox i) rfl rfl rfl rfl rfl

theorem silent_eraseBox (hi : i < s.boxes.length) (hempty : s.box i = none) :
    Silent s (s.eraseBox i) :=
  silent_of_places (.of_eq (places_eraseBox hi hempty)) rfl rfl rfl rfl rfl

/-! ### Giving back -/

/-- What is told while the board stays as it is. A trace record is in the hand from then on, and a
send that is refused answers so; the rest has no counterpart in the balance. -/
theorem posts_tell {t : Event.Kind} (ht : t ∈ [.aclAcked, .systemResponse, .releaseDeferred,
    .traceReceived, .sendRejected]) (channel : UInt8) (length : UInt64) (code : UInt8)
    (s : Account σ) : Posts note k s (k + if t = .traceReceived then 1 else 0)
      (s.tell note ⟨t, channel, length, code⟩)
      { refused := if t = .sendRejected then 1 else 0 } := by
  simp only [List.mem_cons, List.not_mem_nil, or_false] at ht
  refine ⟨[_], rfl, fun c => ?rings, fun e => ?inbox, ?owned, ?returned, ?refused, ?rung⟩
  case rings => rcases ht with rfl | rfl | rfl | rfl | rfl <;> exact (UInt32.add_zero _).symm
  case inbox => rcases ht with rfl | rfl | rfl | rfl | rfl <;> cases e <;> exact Nat.add_comm _ _
  case owned =>
    have htrace : k + s.owned + 1 = 0 + (k + 1 + s.owned) := by omega
    rcases ht with rfl | rfl | rfl | rfl | rfl <;> first | exact htrace | exact Nat.add_comm _ _
  case returned => rcases ht with rfl | rfl | rfl | rfl | rfl <;> exact Nat.add_comm _ _
  case refused => rcases ht with rfl | rfl | rfl | rfl | rfl <;> rfl
  case rung => rcases ht with rfl | rfl | rfl | rfl | rfl <;> exact (Nat.zero_add _).le

/-- A buffer that leaves the hand. -/
theorem posts_append_waiting (s : Account σ) (n : NodeIndex) (channel : UInt8) (length : UInt64)
    (code : UInt8) : Posts note 1 s 0
      ((s.append .waiting n).tell note ⟨.bufferReleased, channel, length, code⟩) {} := by
  have hwaiting : ((s.append .waiting n).line .waiting).length = (s.line .waiting).length + 1 := by
    rw [append, line_setLine_self, List.length_append, List.length_singleton]
  have hreturned : (s.append .waiting n).returned = s.returned + 1 := by
    rw [returned, hwaiting, append, line_setLine_of_ne Line.noConfusion, returned, Nat.add_assoc]
  refine ⟨[_], rfl, fun c => ?rings, fun e => ?inbox, ?owned, ?returned, ?refused, ?rung⟩
  case rings => exact (UInt32.add_zero _).symm
  case inbox => cases e <;> exact Nat.add_comm _ _
  case owned =>
    show 1 + s.owned + 0 = 1 + (0 + s.owned)
    rw [Nat.add_zero, Nat.zero_add]
  case returned =>
    show s.returned + 1 = 0 + (s.append .waiting n).returned
    rw [hreturned, Nat.zero_add]
  case refused => rfl
  case rung =>
    show 0 + ((s.append .waiting n).line .waiting).length ≤ (s.line .waiting).length + 1
    rw [hwaiting, Nat.zero_add]

/-- A ring that is told of. -/
theorem rings_ring (q : Panel) {e : Event} (he : e.kind.bell = some c) (d : Channel) :
    ((q.modify c Bell.ring).get d).rings =
      (q.get d).rings + UInt32.ofNat (Event.rings d [e]) := by
  rw [Event.rings_singleton, he, Panel.get_modify]
  by_cases hcd : c = d
  · rw [if_pos hcd, if_pos (congrArg some hcd), hcd]
    rfl
  · rw [if_neg hcd, if_neg (fun h => hcd (Option.some.inj h))]
    exact (UInt32.add_zero _).symm

/-- A ring after waiting buffers were handed over. -/
theorem posts_ringRelease (hwaiting : s.line .waiting ≠ []) :
    Posts note k s k (s.handOver.ringRelease note) {} := by
  have hsilent := silent_handOver s
  have hempty : s.handOver.line .waiting = [] := by
    simp [handOver, flushed, InterCore.setLine]
  refine ⟨[_], rfl, fun c => ?rings, fun e => ?inbox, ?owned, ?returned, ?refused, ?rung⟩
  case rings => exact rings_ring s.panel rfl c
  case inbox => cases e <;> exact Nat.add_comm _ _
  case owned => exact Nat.add_comm _ _
  case returned =>
    show s.returned + 0 = 0 + s.handOver.returned
    rw [hsilent.returned, Nat.add_zero, Nat.zero_add]
  case refused => rfl
  case rung =>
    show 1 + (s.handOver.line .waiting).length ≤ (s.line .waiting).length + 0
    rw [hempty]
    exact List.length_pos_iff.mpr hwaiting

/-- **A buffer that is given back is told of once.** -/
theorem posts_giveBack (s : Account σ) (n : NodeIndex) :
    Posts note 1 s 0 (s.giveBack note n) {} := by
  rw [giveBack]
  refine (posts_append_waiting s n Channel.release.number 0 0).after ?_
  split
  · exact (Posts.of_silent (silent_awaitRelease _)).after
      (posts_tell (t := .releaseDeferred) (by decide) _ _ _ _)
  · refine posts_ringRelease ?_
    show (s.append .waiting n).line .waiting ≠ []
    rw [append, line_setLine_self]
    exact List.append_ne_nil_of_right_ne_nil _ (List.cons_ne_nil n [])

theorem posts_releaseAcknowledged (s : Account σ) :
    Posts note k s k (s.releaseAcknowledged note) {} := by
  rw [releaseAcknowledged]
  refine (Posts.of_silent ((silent_modifyBell (Bell.rings_enableTx false) .release s).trans
    (silent_modifyFlags ({ · with releasePending := false }) _))).after ?_
  split
  · exact .of_silent (silent_awaitRelease _)
  · split
    · next hwaiting => exact posts_ringRelease fun hnil => hwaiting (by rw [hnil, List.length_nil])
    · exact .refl _

/-! ### Boxes and inboxes -/

/-- A box is emptied into the hand. -/
theorem posts_emptyBox (hi : s.box i = some n) : Posts note 0 s 1 (s.setBox i none) {} := by
  have howned : (s.setBox i none).owned + 1 = s.owned + 0 :=
    owned_add (places_emptyBox hi).length_eq rfl rfl
  refine ⟨[], rfl, fun c => ?rings, fun e => ?inbox, ?owned, ?returned, rfl, ?rung⟩
  case rings => exact (UInt32.add_zero _).symm
  case inbox => exact Nat.add_comm _ _
  case owned =>
    show 0 + s.owned + 0 = 0 + (1 + (s.setBox i none).owned)
    rw [Nat.add_comm 1, howned, Nat.zero_add, Nat.zero_add]
  case returned => exact Nat.add_comm _ _
  case rung => exact (Nat.zero_add _).le

theorem posts_releaseBox (s : Account σ) (i : Nat) : Posts note 0 s 0 (s.releaseBox note i) {} := by
  rw [releaseBox]
  split
  · exact .refl s
  · next n hi => exact (posts_emptyBox hi).after (posts_giveBack _ n)

theorem posts_moveBox (hj : j < s.boxes.length) : Posts note 0 s 0 (s.moveBox note i j) {} := by
  rw [moveBox]
  split
  · exact .refl s
  · next hij =>
    refine (posts_releaseBox s j).after (.of_silent (silent_of_places ?_ rfl rfl rfl rfl rfl))
    exact places_setBox_setBox (by rwa [length_boxes_releaseBox]) hij box_releaseBox_self

theorem posts_destroyBox (hi : i < s.boxes.length) : Posts note 0 s 0 (s.destroyBox note i) {} :=
  (posts_releaseBox s i).after (.of_silent
    (silent_eraseBox (by rwa [length_boxes_releaseBox]) box_releaseBox_self))

theorem inbox_setInbox_self : (s.setInbox e xs).inbox e = xs := Function.update_self _ _ _

theorem inbox_setInbox_of_ne {e' : Endpoint} (h : e' ≠ e) :
    (s.setInbox e xs).inbox e' = s.inbox e' :=
  Function.update_of_ne h _ _

/-- An event reaches its inbox. -/
theorem posts_arrive (s : Account σ) (e : Endpoint) (n : NodeIndex) (channel : UInt8)
    (length : UInt64) (code : UInt8) : Posts note k s k
      ((s.setInbox e (s.inbox e ++ [n])).tell note ⟨e.received, channel, length, code⟩) {} := by
  have howned : (s.setInbox e (s.inbox e ++ [n])).owned + 0 = s.owned + 1 :=
    owned_add (s.places_appendInbox e n).length_eq rfl rfl
  have hself : ((s.setInbox e (s.inbox e ++ [n])).inbox e).length = (s.inbox e).length + 1 := by
    rw [inbox_setInbox_self, List.length_append, List.length_singleton]
  refine ⟨[_], rfl, fun c => ?rings, fun e' => ?inbox, ?owned, ?returned, ?refused, ?rung⟩
  case rings => cases e <;> exact (UInt32.add_zero _).symm
  case inbox =>
    show _ = 0 + ((s.setInbox e (s.inbox e ++ [n])).inbox e').length
    by_cases he : e' = e
    · subst he
      rw [hself, Nat.zero_add]
      cases e' <;> rfl
    · rw [inbox_setInbox_of_ne he, Nat.zero_add]
      cases e <;> cases e' <;> first | rfl | exact absurd rfl he
  case owned =>
    show k + s.owned + _ = _ + (k + ((s.setInbox e (s.inbox e ++ [n])).owned + 0))
    rw [howned]
    cases e <;> exact (Nat.zero_add _).symm
  case returned => cases e <;> exact Nat.add_comm _ _
  case refused => cases e <;> rfl
  case rung => cases e <;> exact (Nat.zero_add _).le

/-- **An event that reaches its inbox is told of once.** -/
theorem posts_fetchOne (e : Endpoint) (n : NodeIndex) (s : Account σ) :
    Posts note k s k (s.fetchOne p note e n) {} :=
  (Posts.of_silent (silent_setLine (by cases e <;> decide) Line.noConfusion _ s)).after
    (posts_arrive _ e n _ _ _)

theorem posts_fetchEvents (e : Endpoint) (s : Account σ) :
    Posts note k s k (s.fetchEvents p note e) {} := by
  refine Posts.after ?_ (.of_silent (silent_modifyBell Bell.rings_clear e.channel _))
  refine foldl_line (R := fun s s' => Posts note k s k s' {}) Posts.refl
    (fun _ _ _ h h' => h.after h') (fun s n xs hl => ⟨posts_fetchOne e n s, ?_⟩) s
  rw [line_fetchOne, hl, List.tail_cons]

/-- **A trace record is told of once.** -/
theorem posts_discardOne (n : NodeIndex) (s : Account σ) :
    Posts note 0 s 0 (s.discardOne p note n) {} := by
  rw [discardOne]
  refine (Posts.of_silent (silent_setLine (l := .shared .traces) (by decide) Line.noConfusion
    (s.line (.shared .traces)).tail s)).after ?_
  exact (posts_tell (t := .traceReceived) (by decide) _ _ _ _).after (posts_giveBack _ n)

theorem posts_discardTraces (s : Account σ) :
    Posts note 0 s 0 (s.discardTraces p note) {} := by
  refine Posts.after ?_ (.of_silent (silent_modifyBell Bell.rings_clear .traces _))
  refine foldl_line (R := fun s s' => Posts note 0 s 0 s' {}) Posts.refl
    (fun _ _ _ h h' => h.after h') (fun s n xs hl => ⟨posts_discardOne n s, ?_⟩) s
  rw [line_discardOne, hl, List.tail_cons]

/-- The oldest event of an inbox moves into an empty box. -/
theorem posts_takeInbox (he : s.inbox e = n :: xs) (hi : i < s.boxes.length)
    (hempty : s.box i = none) :
    Posts note k s k (((s.setInbox e xs).countTaken e).setBox i (some n))
      ((Call.operation (.takeEvent e i)).receipt (.flag true)) := by
  have hplaces := (places_fillBox (s := s.setInbox e xs) hi hempty n).trans (places_takeInbox he)
  refine ⟨[], rfl, fun c => ?rings, fun e' => ?inbox, ?owned, ?returned, rfl, ?rung⟩
  case rings => exact (UInt32.add_zero _).symm
  case inbox =>
    show (s.inbox e').length + 0 = (decide (e = e') && true).toNat +
      ((s.setInbox e xs).inbox e').length
    by_cases hee : e' = e
    · subst hee
      rw [inbox_setInbox_self, he, decide_eq_true rfl, List.length_cons]
      exact Nat.add_comm _ 1
    · rw [inbox_setInbox_of_ne hee, decide_eq_false fun h => hee h.symm]
      exact Nat.add_comm _ _
  case owned =>
    have howned := owned_add (a := 0) (b := 0) hplaces.length_eq rfl rfl
    show k + (s.owned + 0) = 0 + (k + ((s.setInbox e xs).setBox i (some n)).owned)
    rw [← howned, Nat.zero_add]
    rfl
  case returned => exact Nat.add_comm _ _
  case rung => exact (Nat.zero_add _).le

/-- **An event that the application takes is answered once.** -/
theorem posts_takeEvent {e : Endpoint} (hi : i < s.boxes.length) :
    Posts note 0 s 0 (s.takeEvent note e i)
      ((Call.operation (.takeEvent e i)).receipt (.flag !(s.inbox e).isEmpty)) := by
  rw [takeEvent]
  split
  · next hinbox =>
    rw [hinbox]
    exact (show (Call.operation (.takeEvent e i)).receipt (.flag false) = {} by
      simp [Call.receipt, Call.takes, Call.reclaimed, Answer.refused]) ▸ .refl s
  · next n ns he =>
    rw [he]
    refine (posts_releaseBox s i).after (posts_takeInbox ?_ ?_ box_releaseBox_self)
    · rw [inbox_releaseBox, he]
    · rwa [length_boxes_releaseBox]

/-! ### Interrupts -/

theorem posts_receiveInterrupt (s : Account σ) :
    Posts note 0 s 0 (s.receiveInterrupt p note) {} := by
  have hserve : ∀ (c : Channel) (f : Account σ → Account σ) (s : Account σ),
      (∀ s, Posts note 0 s 0 (f s) {}) → Posts note 0 s 0 (s.serve Bell.rxPending c f) {} :=
    fun c f s hf => serve_rel (R := fun s s' => Posts note 0 s 0 s' {}) Posts.refl hf s
  exact (hserve _ _ s (posts_fetchEvents .system)).after
    ((hserve _ _ _ (posts_fetchEvents .ble)).after (hserve _ _ _ posts_discardTraces))

theorem posts_systemAnswered (s : Account σ) : Posts note k s k (s.systemAnswered p note) {} :=
  (Posts.of_silent ((silent_modifyBell (Bell.rings_enableTx false) .systemCommand s).trans
    (silent_modifyFlags _ _))).after (posts_tell (t := .systemResponse) (by decide) _ _ _ _)

theorem posts_aclAcknowledged (s : Account σ) : Posts note k s k (s.aclAcknowledged note) {} :=
  (Posts.of_silent ((silent_modifyBell (Bell.rings_enableTx false) .aclData s).trans
    (silent_modifyFlags _ _))).after (posts_tell (t := .aclAcked) (by decide) _ _ _ _)

theorem posts_transmitInterrupt (s : Account σ) :
    Posts note k s k (s.transmitInterrupt p note) {} := by
  have hserve : ∀ (c : Channel) (f : Account σ → Account σ) (s : Account σ),
      (∀ s, Posts note k s k (f s) {}) → Posts note k s k (s.serve Bell.txPending c f) {} :=
    fun c f s hf => serve_rel (R := fun s s' => Posts note k s k s' {}) Posts.refl hf s
  exact (hserve _ _ s posts_systemAnswered).after
    ((hserve _ _ _ posts_releaseAcknowledged).after (hserve _ _ _ posts_aclAcknowledged))

/-! ### Sends -/

/-- **A send that is refused is told of and answered once.** -/
theorem posts_reject (c : Channel) (bytes : List UInt8) (s : Account σ) :
    Posts note k s k (s.reject note c bytes) { refused := 1 } :=
  posts_tell (t := .sendRejected) (by decide) _ _ _ s

/-- **A send that is accepted rings once and is told of once.** -/
theorem posts_sent {kind : Event.Kind} (hbell : kind.bell = some c)
    (hkind : kind ∈ [.commandSent, .systemCommandSent, .aclSent]) (channel : UInt8)
    (length : UInt64) (code : UInt8) (s : Account σ) : Posts note k s k
      ((s.modifyBell c Bell.ring).tell note ⟨kind, channel, length, code⟩) {} := by
  have hcases : kind = .commandSent ∨ kind = .systemCommandSent ∨ kind = .aclSent := by
    simpa using hkind
  refine ⟨[_], rfl, fun c => ?rings, fun e => ?inbox, ?owned, ?returned, ?refused, ?rung⟩
  case rings => exact rings_ring s.panel hbell c
  case inbox => rcases hcases with rfl | rfl | rfl <;> cases e <;> exact Nat.add_comm _ _
  case owned => rcases hcases with rfl | rfl | rfl <;> exact Nat.add_comm _ _
  case returned => rcases hcases with rfl | rfl | rfl <;> exact Nat.add_comm _ _
  case refused => rcases hcases with rfl | rfl | rfl <;> rfl
  case rung => rcases hcases with rfl | rfl | rfl <;> exact (Nat.zero_add _).le

theorem posts_sendCommandSerial (bytes : List UInt8) (s : Account σ) :
    Posts note k s k (s.sendCommandSerial p note bytes)
      { refused := (Answer.sent (sendAnswer Packet.commandCapacity bytes)).refused.toNat } := by
  rw [sendCommandSerial, sendAnswer]
  split
  · exact posts_reject _ _ s
  · exact (Posts.of_silent (silent_modifyBytes _ s)).after (posts_sent rfl (by decide) _ _ _ _)

theorem posts_sendCommand (opcode : UInt16) (parameters : List UInt8) (s : Account σ) :
    Posts note k s k (s.sendCommand p note opcode parameters)
      { refused := (Answer.sent (sendAnswer Packet.commandPayload parameters)).refused.toNat } := by
  rw [sendCommand, sendAnswer]
  split
  · exact posts_reject _ _ s
  · next hfits =>
    have hserial := @posts_sendCommandSerial σ p note k (Host.commandBytes opcode parameters) s
    rwa [sendAnswer_commandBytes opcode hfits] at hserial

theorem posts_sendAclSerial (bytes : List UInt8) (s : Account σ) :
    Posts note k s k (s.sendAclSerial p note bytes)
      { refused := (Answer.sent (sendAnswer Packet.aclCapacity bytes)).refused.toNat } := by
  rw [sendAclSerial, sendAnswer]
  split
  · exact posts_reject _ _ s
  · exact (Posts.of_silent ((silent_modifyBytes _ s).trans (silent_modifyFlags _ _))).after
      ((posts_sent rfl (by decide) _ _ _ _).after
        (.of_silent (silent_modifyBell (Bell.rings_enableTx true) .aclData _)))

theorem posts_sendAcl (handle : UInt16) (data : List UInt8) (s : Account σ) :
    Posts note k s k (s.sendAcl p note handle data)
      { refused := (Answer.sent (sendAnswer Packet.aclPayload data)).refused.toNat } := by
  rw [sendAcl, sendAnswer]
  split
  · exact posts_reject _ _ s
  · next hfits =>
    have hserial := @posts_sendAclSerial σ p note k (Host.aclBytes handle data) s
    rwa [sendAnswer_aclBytes handle hfits] at hserial

theorem posts_sendSystemCommand (opcode : UInt16) (parameters : List UInt8) (s : Account σ) :
    Posts note k s k (s.sendSystemCommand p note opcode parameters)
      { refused := (Answer.sent (s.systemSendAnswer parameters)).refused.toNat } := by
  rw [sendSystemCommand, systemSendAnswer, sendAnswer]
  split
  · exact posts_reject _ _ s
  · split
    · exact posts_reject _ _ s
    · exact (Posts.of_silent ((silent_modifyBytes _ s).trans (silent_modifyFlags _ _))).after
        ((posts_sent rfl (by decide) _ _ _ _).after
          (.of_silent (silent_modifyBell (Bell.rings_enableTx true) .systemCommand _)))

/-! ### The calls -/

/-- **What the peer takes back, it answers.** -/
theorem posts_reclaim (s : Account σ) :
    Posts note k s k s.reclaim { reclaimed := s.reclaimed } := by
  rw [reclaim, reclaimed]
  split
  · refine ⟨[], rfl, fun c => ?rings, fun e => ?inbox, ?owned, ?returned, rfl, ?rung⟩
    case rings => exact (Panel.modify_keeps Bell.rings_acknowledge).trans (UInt32.add_zero _).symm
    case inbox => exact Nat.add_comm _ _
    case owned => exact Nat.add_comm _ _
    case returned =>
      show s.returned + 0 = (s.line (.shared .free)).length +
        (s.setLine (.shared .free) []).returned
      rw [returned, returned, line_setLine_self, line_setLine_of_ne Line.noConfusion,
        List.length_nil, Nat.zero_add, Nat.add_zero]
    case rung =>
      show 0 + ((s.setLine (.shared .free) []).line .waiting).length ≤ (s.line .waiting).length + 0
      rw [line_setLine_of_ne Line.noConfusion, Nat.zero_add, Nat.add_zero]
  · exact .refl s

theorem posts_operation (sw : Switches) {op : Operation}
    (hop : ∀ i ∈ op.boxes, i < s.boxes.length) : Posts note 0 s 0 (op.apply p sw note s)
      ((Call.operation op).receipt (op.answer p sw s)) := by
  cases op with
  | deliverEvent code data => exact .of_silent (silent_deliver (by decide) _ _ _ _)
  | deliverSystemEvent code data => exact .of_silent (silent_deliver (by decide) _ _ _ _)
  | deliverTrace data =>
    rw [Operation.apply]
    split
    · exact .of_silent (silent_deliver (by decide) _ _ _ _)
    · exact .refl s
  | reclaim => exact posts_reclaim s
  | takeCommand => exact .of_silent (silent_takePacket _)
  | takeAcl => exact .of_silent (silent_takePacket _)
  | answerSystemCommand status => exact .of_silent (silent_answerSystemCommand status)
  | writeCommandStatus status opcode => exact .of_silent (silent_writeCommandStatus status opcode s)
  | receiveInterrupt => exact posts_receiveInterrupt s
  | transmitInterrupt => exact posts_transmitInterrupt s
  | fetchEvents e => exact posts_fetchEvents e s
  | releaseAcknowledged => exact posts_releaseAcknowledged s
  | sendCommandSerial bytes => exact posts_sendCommandSerial bytes s
  | sendCommand opcode parameters => exact posts_sendCommand opcode parameters s
  | sendAclSerial bytes => exact posts_sendAclSerial bytes s
  | sendAcl handle data => exact posts_sendAcl handle data s
  | sendSystemCommand opcode parameters => exact posts_sendSystemCommand opcode parameters s
  | takeEvent e i => exact posts_takeEvent (hop i List.mem_cons_self)
  | releaseBox i => exact posts_releaseBox s i
  | moveBox i j => exact posts_moveBox (hop j (List.mem_cons_of_mem _ List.mem_cons_self))
  | newBox => exact .of_silent (silent_addBox s)
  | constructBox i => exact .of_silent (silent_constructBox i s)
  | destroyBox i => exact posts_destroyBox (hop i List.mem_cons_self)

/-- **Every call balances**, unless it gives back a buffer from nowhere. -/
theorem posts_call (sw : Switches) {c : Call}
    (hop : ∀ op, c = .operation op → ∀ i ∈ op.boxes, i < s.boxes.length)
    (hgives : ∀ n, c ≠ .giveBack n) :
    Posts note 0 s 0 (c.apply p sw note s) (c.receipt (c.answer p sw s)) := by
  cases c with
  | operation op => exact posts_operation sw (hop op rfl)
  | systemAnswered => exact posts_systemAnswered s
  | aclAcknowledged => exact posts_aclAcknowledged s
  | discardTraces => exact posts_discardTraces s
  | flush => exact .of_silent (silent_handOver s)
  | giveBack n => exact absurd rfl (hgives n)
  | fetchOne e =>
    rw [Call.apply]
    split
    · exact .refl s
    · next n xs _ => exact posts_fetchOne e n s
  | discardOne =>
    rw [Call.apply]
    split
    · exact .refl s
    · next n xs _ => exact posts_discardOne n s

end Account

end InterCore
