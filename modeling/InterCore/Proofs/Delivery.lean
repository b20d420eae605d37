import InterCore.Demo
import InterCore.Proofs.Readings
import InterCore.Proofs.Scripts

/-!
# Delivery of events

Every event that the peer delivered reaches the application exactly once, in order and on its own
channel, or still waits; and the packet in a box says what was delivered into it for as long as the
box owns it. The messages are read from memory on the way and at the end.

## Main definitions

* `Transition.accepted`, `Transition.obtained`: what a step adds to the events that the peer
  delivered and to those that the application got.
* `lastInto`: the last message that the peer delivered into a slot.

## Main results

* `Operation.course`: a step delivers one event, takes one, or is steady.
* `Run.events_delivered`: the events delivered are those obtained and then those that wait.
-/

namespace InterCore

variable {σ : Type}

/-! ### The history of a run -/

namespace Operation

/-- What the peer is to deliver, and on which queue. -/
def event? : Operation → Option (Queue × Message)
  | deliverEvent code data => some (.ble, .of .bleEvent code data)
  | deliverSystemEvent code data => some (.system, .of .systemEvent code data)
  | deliverTrace data => some (.traces, .of .wirelessTrace EventCode.vendorSpecific.code data)
  | _ => none

/-- What the peer delivered, if it accepted. -/
def accepted? (op : Operation) : Answer → Option (Queue × Message)
  | .flag true => op.event?
  | _ => none

/-- From which inbox and into which box an event was taken. -/
def taken? : Operation → Answer → Option (Endpoint × Nat)
  | takeEvent e i, .flag true => some (e, i)
  | _, _ => none

end Operation

namespace Transition

variable (t : Transition σ) (e : Endpoint)

/-- The message that the peer delivered for an endpoint in a step. -/
def accepted : List Message :=
  match t.operation.accepted? t.answer with
  | some (q, x) => if e.queue = q then [x] else []
  | none => []

/-- The message that the application got from an endpoint in a step, read in the box. -/
def obtained : List (Option Message) :=
  match t.operation.taken? t.answer with
  | some (e', i) =>
    if e' = e then [(t.after.boxes.getD i Box.empty).node.map t.after.message] else []
  | none => []

/-- The message that the peer delivered into the slot at an address in a step. -/
def messageInto (a : Address) : Option Message :=
  match t.before.peer.free, t.operation.accepted? t.answer with
  | a' :: _, some (_, x) => if a' = a then some x else none
  | _, _ => none

end Transition

/-- The last message that the peer delivered into the slot at an address. -/
def lastInto (ts : List (Transition σ)) (a : Address) : Option Message :=
  ts.reverse.findSome? (·.messageInto a)

theorem lastInto_append (ts : List (Transition σ)) (t : Transition σ) (a : Address) :
    lastInto (ts ++ [t]) a = (t.messageInto a).or (lastInto ts a) := by
  rw [lastInto, List.reverse_append, List.reverse_singleton, List.singleton_append,
    List.findSome?_cons, lastInto]
  cases t.messageInto a <;> rfl

/-! ### What a step does -/

/-- What a step does to the events that wait: nothing, or the peer delivers one more, or the
application takes the oldest. -/
inductive Course (p : Placement) (note : Event → σ → σ) (s : Account σ) (op : Operation)
    (r : Answer) (s' : Account σ) : Prop where
  | steady (haccepted : op.accepted? r = none) (htaken : op.taken? r = none)
      (h : s.Steady p s')
  | delivers {q : Queue} {kind : PacketKind} {code : UInt8} {data : List UInt8} {c : Channel}
      (haccepts : s.accepts data = true)
      (haccepted : op.accepted? r = some (q, .of kind code data)) (htaken : op.taken? r = none)
      (h : s' = s.deliver p q kind code data c)
  | takes {e : Endpoint} {i : Nat} {n : NodeIndex} {xs : List NodeIndex}
      (haccepted : op.accepted? r = none) (htaken : op.taken? r = some (e, i))
      (hi : i ∈ op.boxes) (hinbox : s.inbox e = n :: xs) (h : s' = s.takeEvent note e i)

namespace Course

variable {p : Placement} {sw : Switches} {note : Event → σ → σ} {s : Account σ}

theorem of_deliver {op : Operation} {q : Queue} {kind : PacketKind} {code : UInt8}
    {data : List UInt8} {c : Channel} (hevent : op.event? = some (q, .of kind code data))
    (htaken : ∀ r, op.taken? r = none) :
    Course p note s op (.flag (s.accepts data)) (s.deliver p q kind code data c) := by
  cases haccepts : s.accepts data with
  | true => exact .delivers haccepts hevent (htaken _) rfl
  | false =>
    rw [Account.deliver_of_refused haccepts]
    exact .steady rfl (htaken _) (.refl p s)

theorem of_answerSystemCommand (hp : p.Valid) (status : UInt8) (yes : Bool) :
    Course p note s (.answerSystemCommand status) (.flag yes)
      (s.answerSystemCommand p status) := by
  have hsteady := (Account.idle_answerSystemCommand (s := s) hp status).steady
  cases yes with
  | true => exact .steady rfl rfl hsteady
  | false => exact .steady rfl rfl hsteady

theorem of_takeEvent (e : Endpoint) (i : Nat) :
    Course p note s (.takeEvent e i) (.flag !(s.inbox e).isEmpty) (s.takeEvent note e i) := by
  cases hinbox : s.inbox e with
  | nil =>
    refine .steady rfl rfl ?_
    rw [Account.takeEvent, hinbox]
    exact .refl p s
  | cons n xs => exact .takes rfl rfl List.mem_cons_self hinbox rfl

/-- **A step delivers one event, takes one, or leaves those that wait as they are.** -/
theorem of_apply (hp : p.Valid) (op : Operation) :
    Course p note s op (op.answer p sw s) (op.apply p sw note s) := by
  cases op with
  | deliverEvent code data => exact of_deliver rfl fun _ => rfl
  | deliverSystemEvent code data => exact of_deliver rfl fun _ => rfl
  | deliverTrace data =>
    rw [Operation.answer, Operation.apply]
    cases sw.traces with
    | true => exact of_deliver rfl fun _ => rfl
    | false => exact .steady rfl rfl (.refl p s)
  | reclaim => exact .steady rfl rfl Account.steady_reclaim
  | takeCommand => exact .steady rfl rfl (Account.idle_takePacket _).steady
  | takeAcl => exact .steady rfl rfl (Account.idle_takePacket _).steady
  | answerSystemCommand status => exact of_answerSystemCommand hp status _
  | writeCommandStatus status opcode =>
    exact .steady rfl rfl (Account.idle_writeCommandStatus hp status opcode).steady
  | receiveInterrupt => exact .steady rfl rfl Account.steady_receiveInterrupt
  | transmitInterrupt => exact .steady rfl rfl Account.steady_transmitInterrupt
  | fetchEvents e => exact .steady rfl rfl Account.steady_fetchEvents
  | releaseAcknowledged => exact .steady rfl rfl Account.steady_releaseAcknowledged
  | sendCommandSerial bytes =>
    exact .steady rfl rfl (Account.idle_sendCommandSerial hp bytes).steady
  | sendCommand opcode parameters =>
    exact .steady rfl rfl (Account.idle_sendCommand hp opcode parameters).steady
  | sendAclSerial bytes => exact .steady rfl rfl (Account.idle_sendAclSerial hp bytes).steady
  | sendAcl handle data => exact .steady rfl rfl (Account.idle_sendAcl hp handle data).steady
  | sendSystemCommand opcode parameters =>
    exact .steady rfl rfl (Account.idle_sendSystemCommand hp opcode parameters).steady
  | takeEvent e i => exact of_takeEvent e i
  | releaseBox i => exact .steady rfl rfl Account.steady_releaseBox
  | moveBox i j => exact .steady rfl rfl Account.steady_moveBox
  | newBox => exact .steady rfl rfl (Account.steady_addBox none)
  | constructBox i => exact .steady rfl rfl Account.steady_constructBox
  | destroyBox i => exact .steady rfl rfl Account.steady_destroyBox

end Course

/-! ### The invariant -/

namespace Account

/-- The messages that wait for an endpoint, the oldest first. -/
def waiting (p : Placement) (s : Account σ) (e : Endpoint) : List Message :=
  (s.pipeline e).map (s.message p)

variable {p : Placement} {note : Event → σ → σ} {s s' : Account σ}

/-- What the host has is no slot of the peer. -/
theorem mem_pool_of_mem_hostPlaces (hs : s.places.Perm pool) {n : NodeIndex}
    (hn : n ∈ s.hostPlaces) : n ∈ pool ∧ n ∉ s.free := by
  rw [places_eq_append] at hs
  have hnd : (s.free ++ s.hostPlaces).Nodup := hs.nodup_iff.mpr (by decide)
  exact ⟨hs.subset (List.mem_append_right _ hn),
    fun hfree => List.disjoint_of_nodup_append hnd hfree hn⟩

theorem mem_hostPlaces_of_mem_pipeline {e : Endpoint} {n : NodeIndex} (hn : n ∈ s.pipeline e) :
    n ∈ s.hostPlaces := by
  rcases List.mem_append.mp hn with hn | hn
  · refine List.mem_append_left _ (List.mem_append_right _ ?_)
    cases e with
    | ble => exact List.mem_append_left _ hn
    | system => exact List.mem_append_right _ hn
  · exact List.mem_append_left _ (List.mem_append_left _
      (List.mem_flatMap.mpr ⟨_, Line.mem_all _, hn⟩))

theorem mem_slots_of_mem_pipeline (hs : s.places.Perm pool) {e : Endpoint} {n : NodeIndex}
    (hn : n ∈ s.pipeline e) : n ∈ slots :=
  mem_slots_of_mem_pool (mem_pool_of_mem_hostPlaces hs (mem_hostPlaces_of_mem_pipeline hn)).1

/-- Nothing new waits after a steady step. -/
theorem Steady.waiting (h : Steady p s s') (hs : s.places.Perm pool) (e : Endpoint) :
    s'.waiting p e = s.waiting p e := by
  rw [Account.waiting, h.pipeline, Account.waiting]
  exact List.map_congr_left fun n hn => h.message (mem_slots_of_mem_pipeline hs hn)

/-- The delivered message waits behind the others. -/
theorem waiting_deliver (hp : p.Valid) (hs : s.places.Perm pool) {q : Queue} {kind : PacketKind}
    {code : UInt8} {data : List UInt8} {c : Channel} (haccepts : s.accepts data = true)
    (e : Endpoint) : (s.deliver p q kind code data c).waiting p e =
      s.waiting p e ++ if e.queue = q then [.of kind code data] else [] := by
  obtain ⟨n, ns, hfree, hfits⟩ := exists_free_of_accepts haccepts
  have hn : n ∈ s.free := by rw [hfree]; exact List.mem_cons_self
  have hslot : n ∈ slots := mem_slots_of_mem_pool (hs.subset (by
    rw [places_eq_append]
    exact List.mem_append_left _ hn))
  have hold : (s.pipeline e).map ((s.deliver p q kind code data c).message p) =
      s.waiting p e := by
    refine List.map_congr_left fun n' hn' => ?_
    have hhost := mem_pool_of_mem_hostPlaces hs (mem_hostPlaces_of_mem_pipeline hn')
    refine message_deliver_of_ne hp hfree hfits hslot (mem_slots_of_mem_pool hhost.1) ?_
    rintro rfl
    exact hhost.2 hn
  rw [waiting, pipeline_deliver hfree hfits, List.map_append, hold]
  congr 1
  split
  · rw [List.map_singleton, message_deliver_self hfree hfits]
  · rfl

/-- The message that is taken waited before the others. -/
theorem waiting_takeEvent (hs : s.places.Perm pool) {e : Endpoint} {n : NodeIndex}
    {xs : List NodeIndex} {i : Nat} (hinbox : s.inbox e = n :: xs) (e' : Endpoint) :
    s.waiting p e' =
      (if e = e' then [s.message p n] else []) ++ (s.takeEvent note e i).waiting p e' := by
  have hpipeline := @pipeline_takeEvent _ note _ _ _ _ i hinbox e'
  have hold : ((s.takeEvent note e i).pipeline e').map (s.message p) =
      (s.takeEvent note e i).waiting p e' := by
    refine List.map_congr_left fun n' hn' => (message_takeEvent ?_).symm
    refine mem_slots_of_mem_pipeline hs (e := e') ?_
    rw [hpipeline]
    exact List.mem_append_right _ hn'
  rw [waiting, hpipeline, List.map_append, hold]
  congr 1
  split <;> rfl

end Account

/-- The packets that the host has stay as they are. -/
theorem Course.message {p : Placement} {note : Event → σ → σ} {s s' : Account σ} {op : Operation}
    {r : Answer} (h : Course p note s op r s') (hp : p.Valid) (hs : s.places.Perm pool)
    {n : NodeIndex} (hn : n ∈ pool) (hfree : n ∉ s.free) : s'.message p n = s.message p n := by
  have hslot := mem_slots_of_mem_pool hn
  cases h with
  | steady _ _ h => exact h.message hslot
  | delivers haccepts _ _ h =>
    obtain ⟨n', ns, hcons, hfits⟩ := Account.exists_free_of_accepts haccepts
    rw [hcons] at hfree
    have hn' : n' ∈ pool := by
      refine hs.subset ?_
      rw [Account.places_eq_append, hcons]
      exact List.mem_cons_self
    rw [h]
    exact Account.message_deliver_of_ne hp hcons hfits (mem_slots_of_mem_pool hn') hslot
      (List.ne_of_not_mem_cons hfree)
  | takes _ _ _ _ h =>
    rw [h]
    exact Account.message_takeEvent hslot

/-- The history `ts` of an account: the events delivered are those obtained and those that wait, and
every slot that the peer does not have says what was last delivered into it. -/
structure Delivered (p : Placement) (ts : List (Transition σ)) (s : Account σ) : Prop where
  order : ∀ e, (ts.flatMap (·.accepted e)).map some =
    ts.flatMap (·.obtained e) ++ (s.waiting p e).map some
  last : ∀ n ∈ pool, n ∉ s.free → lastInto ts (p.arena.locate n) = some (s.message p n)
  kept : ∀ t ∈ ts, ∀ n ∈ t.before.boxNodes, t.after.message n = t.before.message n

/-- The packet of a slot is read as in the account. -/
theorem Board.Shows.message_of_slot {p : Placement} {sw : Switches} {b : Board σ} {s : Account σ}
    (h : b.Shows p sw s) {n : NodeIndex} (hn : n ∈ slots) : b.message n = s.message p n := by
  rw [Board.message, h.host.arena, h.message_eq hn]

namespace Delivered

variable {p : Placement} {sw : Switches} {note : Event → σ → σ} {b b' : Board σ}
  {s s' : Account σ} {op : Operation} {r : Answer} {ts : List (Transition σ)}

/-- What waits before a step and what it delivers is what it takes and what waits after it. -/
theorem order_step (h : Course p note s op r s') (hp : p.Valid) (hs : s.places.Perm pool)
    (hop : ∀ i ∈ op.boxes, i < s.boxes.length) (h' : b'.Shows p sw s') (e : Endpoint) :
    (s.waiting p e).map some ++ ((Transition.mk b op r b').accepted e).map some =
      (Transition.mk b op r b').obtained e ++ (s'.waiting p e).map some := by
  rw [Transition.accepted, Transition.obtained]
  cases h with
  | steady haccepted htaken h =>
    rw [haccepted, htaken, h.waiting hs]
    simp only [List.map_nil, List.append_nil, List.nil_append]
  | delivers haccepts haccepted htaken h =>
    rw [haccepted, htaken, h, Account.waiting_deliver hp hs haccepts, List.map_append]
    simp only [List.nil_append]
  | @takes e' i n xs haccepted htaken hi hinbox h =>
    have hn : n ∈ s.pipeline e' := by
      rw [Account.pipeline, hinbox]
      exact List.mem_cons_self
    have hslot := Account.mem_slots_of_mem_pipeline hs hn
    have hbox : (b'.boxes.getD i Box.empty).node.map b'.message = some (s.message p n) := by
      rw [h'.getD_boxes, Box.node_holding, h, Account.box_takeEvent hinbox (hop i hi),
        Option.map_some, h'.message_of_slot hslot, h, Account.message_takeEvent hslot]
    rw [haccepted, htaken, Account.waiting_takeEvent hs hinbox, ← h, List.map_append]
    dsimp only
    rw [hbox, List.map_nil, List.append_nil]
    congr 1
    split <;> rfl

/-- A step without a delivery fills no slot. -/
theorem last_of_none (haccepted : op.accepted? r = none) (a : Address) :
    lastInto (ts ++ [⟨b, op, r, b'⟩]) a = lastInto ts a := by
  rw [lastInto_append, Transition.messageInto, haccepted]
  cases b.peer.free <;> rfl

/-- A slot that the peer does not have after a step was filled in it, or was filled before. -/
theorem last_step (h : Course p note s op r s') (hp : p.Valid) (hs : s.places.Perm pool)
    (hb : b.Shows p sw s) {n : NodeIndex} (hn : n ∈ pool) (hfree : n ∉ s'.free)
    (hlast : n ∉ s.free → lastInto ts (p.arena.locate n) = some (s.message p n)) :
    lastInto (ts ++ [⟨b, op, r, b'⟩]) (p.arena.locate n) = some (s'.message p n) := by
  have hkeep := h.message hp hs hn
  cases h with
  | steady haccepted _ h =>
    have hfree' : n ∉ s.free := fun hmem => hfree (h.free hmem)
    rw [last_of_none haccepted, hlast hfree', hkeep hfree']
  | @delivers q kind code data c haccepts haccepted _ h =>
    obtain ⟨n', ns, hcons, hfits⟩ := Account.exists_free_of_accepts haccepts
    rw [lastInto_append, Transition.messageInto, hb.carries.peer_free, haccepted, hcons,
      List.map_cons]
    dsimp only
    by_cases heq : n' = n
    · rw [if_pos (congrArg _ heq), Option.some_or, h, ← heq,
        Account.message_deliver_self hcons hfits]
    · have hn' : n' ∈ slots := hb.carries.mem_slots n' (by
        rw [hcons]
        exact List.mem_cons_self)
      have hfree' : n ∉ s.free := by
        rw [h, Account.deliver_of_free hcons hfits] at hfree
        rw [hcons]
        exact List.not_mem_cons_of_ne_of_not_mem (Ne.symm heq) hfree
      rw [if_neg (mt (hp.separated.locate_inj (has_of_mem_slots hn')
        (has_of_mem_slots (mem_slots_of_mem_pool hn))).mp heq), Option.none_or, hlast hfree',
        hkeep hfree']
  | takes haccepted _ _ _ h =>
    have hfree' : n ∉ s.free := fun hmem => hfree (by
      rw [h]
      exact Account.free_takeEvent hmem)
    rw [last_of_none haccepted, hlast hfree', hkeep hfree']

/-- The packets in the boxes stay as they are. -/
theorem kept_step (h : Course p note s op r s') (hp : p.Valid) (hs : s.places.Perm pool)
    (hb : b.Shows p sw s) (h' : b'.Shows p sw s') {n : NodeIndex} (hn : n ∈ b.boxNodes) :
    b'.message n = b.message n := by
  have hhost : n ∈ s.hostPlaces := by
    rw [hb.boxNodes_eq] at hn
    exact List.mem_append_right _ hn
  obtain ⟨hpool, hfree⟩ := Account.mem_pool_of_mem_hostPlaces hs hhost
  have hslot := mem_slots_of_mem_pool hpool
  rw [h'.message_of_slot hslot, hb.message_of_slot hslot, h.message hp hs hpool hfree]

theorem boot (m : Memory) (panel : Panel) (boxes : Nat) (sink : σ) :
    Delivered p [] (Account.booted m panel boxes sink) where
  order _ := rfl
  last _ hn hfree := absurd (List.mem_reverse.mpr hn) hfree
  kept _ ht := absurd ht List.not_mem_nil

/-- **Every step keeps the history in order.** -/
theorem step (h : Delivered p ts s) (hp : p.Valid) (hs : s.places.Perm pool)
    (hop : ∀ i ∈ op.boxes, i < s.boxes.length) (hb : b.Shows p sw s)
    (h' : b'.Shows p sw (op.apply p sw note s)) :
    Delivered p (ts ++ [⟨b, op, op.answer p sw s, b'⟩]) (op.apply p sw note s) := by
  have hcourse : Course p note s op (op.answer p sw s) (op.apply p sw note s) := .of_apply hp op
  refine ⟨fun e => ?_, fun n hn hfree => last_step hcourse hp hs hb hn hfree (h.last n hn),
    fun t ht n hn => ?_⟩
  · rw [List.flatMap_append, List.flatMap_singleton, List.flatMap_append, List.flatMap_singleton,
      List.map_append, h.order e, List.append_assoc, order_step hcourse hp hs hop h' e,
      List.append_assoc]
  · rcases List.mem_append.mp ht with ht | ht
    · exact h.kept t ht n hn
    · obtain rfl := List.mem_singleton.mp ht
      exact kept_step hcourse hp hs hb h' hn

end Delivered

/-- **Events are delivered.** After every run and for either endpoint, the messages that the peer
delivered are those that the application got, in order, and then those in the inbox and those in the
shared queue, read from memory. A packet in a box says what was last delivered into its slot, and no
step has changed a packet in a box. -/
theorem Run.events_delivered {p : Placement} {sw : Switches} {note : Event → σ → σ}
    {b₀ b : Board σ} {ts : List (Transition σ)} (hp : p.Valid)
    (hboxes : ∀ x ∈ b₀.boxes, x = Box.empty) (h : Run p sw note b₀ ts b) :
    (∀ e, (ts.flatMap (·.accepted e)).map some = ts.flatMap (·.obtained e) ++
      (b.inboxNodes e ++ b.line (.shared e.queue)).map (Option.map b.message)) ∧
    (∀ n ∈ b.boxNodes, lastInto ts (b.host.arena.locate n) = some (b.message n)) ∧
    ∀ t ∈ ts, ∀ n ∈ t.before.boxNodes, t.after.message n = t.before.message n := by
  obtain ⟨s, hshows, hperm, hdelivered⟩ := h.invariant hp hboxes (I := Delivered p)
    (fun m => .boot m _ _ _) fun ts b s op b' hI hb hperm hop h' => hI.step hp hperm hop hb h'
  refine ⟨fun e => ?_, fun n hn => ?_, hdelivered.kept⟩
  · have hline : Line.shared e.queue ∈ Line.made sw.traces :=
      Line.mem_made_of_ne _ (Account.shared_ne_traces e)
    rw [hdelivered.order e, hshows.inboxNodes_eq, hshows.ready.line_eq hp hline, ← List.map_append,
      List.map_map, Account.waiting, List.map_map]
    congr 1
    refine List.map_congr_left fun n hn => ?_
    exact congrArg some (hshows.message_of_slot (Account.mem_slots_of_mem_pipeline hperm hn)).symm
  · have hhost : n ∈ s.hostPlaces := by
      rw [hshows.boxNodes_eq] at hn
      exact List.mem_append_right _ hn
    obtain ⟨hpool, hfree⟩ := Account.mem_pool_of_mem_hostPlaces hperm hhost
    rw [hshows.host.arena, hdelivered.last n hpool hfree,
      hshows.message_of_slot (mem_slots_of_mem_pool hpool)]

/-- Events are delivered while slots are reused and a box takes one event after the other. -/
theorem Run.events_delivered_session : ∃ ts b,
    Run Placement.standard {} (fun _ c => c) Demo.blank ts b ∧
    ts.map (·.operation) = [.deliverEvent 15 [0, 1], .deliverSystemEvent 255 [2],
      .fetchEvents .ble, .takeEvent .ble 0, .deliverEvent 14 [3], .fetchEvents .ble,
      .takeEvent .ble 0, .reclaim, .deliverEvent 62 [4]] ∧
    (∀ e, (ts.flatMap (·.accepted e)).map some = ts.flatMap (·.obtained e) ++
      (b.inboxNodes e ++ b.line (.shared e.queue)).map (Option.map b.message)) ∧
    (∀ n ∈ b.boxNodes, lastInto ts (b.host.arena.locate n) = some (b.message n)) ∧
    ∀ t ∈ ts, ∀ n ∈ t.before.boxNodes, t.after.message n = t.before.message n := by
  obtain ⟨ts, b, hrun, hops⟩ : ∃ ts b,
      Run Placement.standard {} (fun _ c => c) Demo.blank ts b ∧
      ts.map (·.operation) = [.deliverEvent 15 [0, 1], .deliverSystemEvent 255 [2],
        .fetchEvents .ble, .takeEvent .ble 0, .deliverEvent 14 [3], .fetchEvents .ble,
        .takeEvent .ble 0, .reclaim, .deliverEvent 62 [4]] :=
    Run.exists_of_legal Placement.valid_standard Demo.boxes_blank (by decide) (by decide)
  exact ⟨ts, b, hrun, hops, Run.events_delivered Placement.valid_standard Demo.boxes_blank hrun⟩

end InterCore
