import InterCore.Proofs.Chain.Edits
import InterCore.Proofs.Handling

/-!
# Draining a queue of any length

The interrupt routine of an endpoint moves whatever the peer has queued into an inbox of 32 places.
Here nothing is known of the arena but that its slots lie apart: there may be any number of event
slots, the queue may hold any number of them, and the counters of the inbox may stand anywhere. The
routine finishes if everything fits, and halts at the first event that does not.

## Main definitions

* `Board.Receives`: a queue, an inbox, and the chains beside them.
* `Board.Fetched`: some events moved from the queue to the inbox, and nothing else happened.
* `Board.Drained`: what a drain leaves behind that has finished.

## Main results

* `Board.Receives.fetchOne`, `Board.Receives.fetchOne_full`: one round.
* `Board.Receives.countRounds`: as many rounds as there is room for.
* `Board.Receives.drains_iff_fits`: the interrupt routine.
-/

namespace InterCore

open Memory

variable {σ : Type}

/-! ### Payloads of slots -/

namespace Arena.Separated

variable {a : Arena} {n : NodeIndex} {S : NodeIndex → Prop} {k : Address}

/-- What follows the links in a slot belongs to the links of no node. -/
theorem not_links_of_payload (ha : a.Separated) (hn : a.Has n) (hS : ∀ i, S i → a.Has i)
    (hk : Within (a.locate n + 16) (a.width n - 16) k) : ¬ a.Links S k := by
  have hwidth := ha.node_le_width hn
  rintro ⟨i, hi, hlink⟩
  by_cases hin : i = n
  · subst hin
    have hp := (a.locate i).toNat_lt
    have hlt := k.toNat_lt
    have hslot := ha.slot_lt hn
    have hsize : UInt64.size = 18446744073709551616 := rfl
    simp only [Within, UInt64.toNat_sub, UInt64.toNat_add, UInt64.reduceToNat] at hk hlink
    omega
  · have hinside : Within (a.locate n) (a.width n) k := hk.of_add (by
      show 16 + (a.width n - 16) ≤ a.width n
      omega)
    have hlinked := hlink.mono (ha.node_le_width (hS i hi))
    exact ha.slots_apart hn (hS i hi) (Ne.symm hin) hinside hlinked

/-- Stores to links keep the message in an event slot. -/
theorem load_eq {m m' : Memory} (ha : a.Separated) (hn : a.Has n)
    (hwidth : Packet.slotSize ≤ a.width n) (hS : ∀ i, S i → a.Has i)
    (hm : AgreeOff (a.Links S) m m') :
    Message.load m' (a.locate n) = Message.load m (a.locate n) := by
  refine Message.load_congr hm fun k hk => ha.not_links_of_payload hn hS (hk.mono ?_)
  exact Nat.sub_le_sub_right (Nat.le_trans (show 274 ≤ Packet.slotSize by decide) hwidth) 16

end Arena.Separated

/-! ### Queues and inboxes -/

namespace Board

/-- The shared queue of an endpoint holds `queued`, each of them an event slot, and its inbox holds
`pending`, from any counter on. The queue and the chains beside it are well formed. -/
structure Receives (e : Endpoint) (queued : List NodeIndex) (pending : List Box)
    (others : Chain.Family) (b : Board σ) : Prop where
  separated : b.host.arena.Separated
  chains : Chain.WellFormed b.host.arena b.memory (((b.host.receiver e).queue, queued) :: others)
  slots : ∀ n ∈ queued, Packet.slotSize ≤ b.host.arena.width n
  inbox : (b.host.receiver e).inbox.Holds Box.empty pending

/-- What the observer is told when the events in some buffers arrive. -/
def arrivals (e : Endpoint) (b : Board σ) (ns : List NodeIndex) : List Event :=
  ns.map fun n => Account.arrival e (Message.load b.memory (b.host.arena.locate n))

theorem arrivals_append (e : Endpoint) (b : Board σ) (xs ys : List NodeIndex) :
    b.arrivals e (xs ++ ys) = b.arrivals e xs ++ b.arrivals e ys :=
  List.map_append

/-- The boxes around some buffers. -/
def boxesOf (ns : List NodeIndex) : List Box := ns.map fun n => Box.holding (some n)

/-- From the first board to the second the events in `ns` moved from the shared queue to the inbox,
where `rest` were left in the queue, and nothing else happened. -/
structure Fetched (note : Event → σ → σ) (e : Endpoint) (ns rest : List NodeIndex)
    (b b' : Board σ) : Prop where
  eq : b' = { b with
    memory := b'.memory
    host := b.host.withInbox e (b'.host.receiver e).inbox
    sink := Event.noteAll note (b.arrivals e ns) b.sink }
  head : (b'.host.receiver e).inbox.head = (b.host.receiver e).inbox.head
  bytes : AgreeOff (b.host.arena.Links (· ∈ (b.host.receiver e).queue :: (ns ++ rest))) b.memory
    b'.memory

variable {note : Event → σ → σ} {e : Endpoint} {b b₁ b' : Board σ} {n : NodeIndex}
  {queued ns rest xs ys : List NodeIndex} {pending : List Box} {others : Chain.Family}

namespace Fetched

theorem refl (note : Event → σ → σ) (e : Endpoint) (rest : List NodeIndex) (b : Board σ) :
    Fetched note e [] rest b b where
  eq := by cases e <;> rfl
  head := rfl
  bytes := .refl _ _

theorem arena_eq (h : Fetched note e ns rest b b') : b'.host.arena = b.host.arena := by
  rw [h.eq]
  cases e <;> rfl

theorem queue_eq (h : Fetched note e ns rest b b') :
    (b'.host.receiver e).queue = (b.host.receiver e).queue := by
  rw [h.eq, Host.receiver_withInbox]

/-- Fetching some events and then others. The messages of the latter must not have changed
meanwhile. -/
theorem trans (h : Fetched note e xs (ys ++ rest) b b₁) (h' : Fetched note e ys rest b₁ b')
    (harrivals : b₁.arrivals e ys = b.arrivals e ys) : Fetched note e (xs ++ ys) rest b b' where
  eq := by
    have hsink : Event.noteAll note (b.arrivals e (xs ++ ys)) b.sink =
        Event.noteAll note (b₁.arrivals e ys) b₁.sink := by
      rw [harrivals, h.eq, arrivals_append, Event.noteAll_append]
    rw [hsink, h'.eq, h.eq]
    simp only [Host.receiver_withInbox, Host.withInbox_withInbox]
  head := h'.head.trans h.head
  bytes := by
    have hbytes := h'.bytes
    rw [h.arena_eq, h.queue_eq] at hbytes
    rw [List.append_assoc]
    refine h.bytes.trans (hbytes.mono fun k hk => hk.mono fun i hi => ?_)
    rcases List.mem_cons.mp hi with rfl | hi
    · exact List.mem_cons_self
    · exact List.mem_cons_of_mem _ (List.mem_append_right _ hi)

end Fetched

namespace Receives

theorem has_of_mem (h : b.Receives e queued pending others) {i : NodeIndex}
    (hi : i ∈ (b.host.receiver e).queue :: queued) : b.host.arena.Has i :=
  h.chains.has_of_mem List.mem_cons_self hi

theorem nodup (h : b.Receives e queued pending others) : queued.Nodup :=
  (h.chains.nodup_of_mem List.mem_cons_self).of_cons

/-- Fetching keeps the messages that are still in the queue. -/
theorem arrivals_eq (h : b.Receives e (ns ++ rest) pending others)
    (hfetched : Fetched note e ns rest b b') : b'.arrivals e rest = b.arrivals e rest := by
  refine List.map_congr_left fun n hn => ?_
  have hmem : n ∈ ns ++ rest := List.mem_append_right _ hn
  rw [hfetched.arena_eq, h.separated.load_eq (h.has_of_mem (List.mem_cons_of_mem _ hmem))
    (h.slots n hmem) (fun i hi => h.has_of_mem hi) hfetched.bytes]

/-- No byte of a slot behind its links is stored to. -/
theorem payload_eq (h : b.Receives e (ns ++ rest) pending others)
    (hfetched : Fetched note e ns rest b b') (hn : b.host.arena.Has n) {k : Address}
    (hk : Within (b.host.arena.locate n + 16) (b.host.arena.width n - 16) k) :
    b'.memory.get k = b.memory.get k :=
  hfetched.bytes k (h.separated.not_links_of_payload hn (fun _ hi => h.has_of_mem hi) hk)

/-! ### One round -/

/-- Nothing is left in the queue. -/
theorem fetchOne_nil (h : b.Receives e [] pending others) :
    (Host.fetchOne (Observer.passive note) e).run b = .ok false b := by
  have hchains : Chain.WellFormed b.host.arena b.memory
      ([] ++ ((b.host.receiver e).queue, []) :: others) := h.chains
  have hpop := hchains.popFront_nil h.separated
  have hrun : (extract fun a m => Chain.popFront a m (b.host.receiver e).queue).run b =
      .ok none b := run_extract_ok b hpop
  rw [Host.fetchOne, run_get_bind, run_bind_ok hrun, EStateM.run_pure]

/-- The first buffer is taken out of the queue and looked at. -/
theorem fetchOne_cons (note : Event → σ → σ) (h : b.Receives e (n :: xs) pending others) :
    ∃ m', Chain.WellFormed b.host.arena m' (((b.host.receiver e).queue, xs) :: others) ∧
      AgreeOff (b.host.arena.Links (· ∈ (b.host.receiver e).queue :: n :: xs)) b.memory m' ∧
      (Host.fetchOne (Observer.passive note) e).run b =
        (do
          unless ← Host.deliverBox (Observer.passive note) e (Box.holding (some n)) do
            throw (.inboxOverflow e)
          Observer.passive note
            (Account.arrival e (Message.load b.memory (b.host.arena.locate n)))
          return true : BoardM σ Bool).run { b with memory := m' } := by
  have hn : b.host.arena.Has n := h.has_of_mem (by simp)
  have hchains : Chain.WellFormed b.host.arena b.memory
      ([] ++ ((b.host.receiver e).queue, n :: xs) :: others) := h.chains
  obtain ⟨m', hpop, hw, hagree⟩ := hchains.popFront h.separated
  have hbytes : AgreeOff (b.host.arena.Links (· ∈ (b.host.receiver e).queue :: n :: xs)) b.memory
      m' := by
    refine hagree.mono fun k hk => hk.mono fun i hi => ?_
    rcases List.mem_pair.mp hi with rfl | rfl
    · exact List.mem_cons_self
    · cases xs <;> simp
  have hload := h.separated.load_eq hn (h.slots n List.mem_cons_self)
    (fun i hi => h.has_of_mem hi) hbytes
  refine ⟨m', hw, hbytes, ?_⟩
  have hrun : (extract fun a m => Chain.popFront a m (b.host.receiver e).queue).run b =
      .ok (some n) { b with memory := m' } := run_extract_ok b hpop
  have haddress : (address n).run { b with memory := m' } =
      .ok (b.host.arena.locate n) { b with memory := m' } :=
    run_lookup_ok { b with memory := m' } hn.address
  rw [Host.fetchOne, run_get_bind, run_bind_ok hrun, ← hload, ← h.separated.around_eq hn]
  exact run_bind_ok haddress

/-- **One round moves the first buffer to the inbox**, as long as there is room. -/
theorem fetchOne (note : Event → σ → σ) (h : b.Receives e (n :: xs) pending others)
    (hroom : pending.length < 32) :
    ∃ b', (Host.fetchOne (Observer.passive note) e).run b = .ok true b' ∧
      b'.Receives e xs (pending ++ boxesOf [n]) others ∧ Fetched note e [n] xs b b' := by
  obtain ⟨m', hw, hbytes, hrun⟩ := h.fetchOne_cons note
  obtain ⟨ring, hdeliver, hholds, hhead⟩ := Host.run_deliverBox (b := { b with memory := m' })
    (x := Box.holding (some n)) (Observer.passive note) h.inbox hroom
  refine ⟨{ b with
    memory := m'
    host := b.host.withInbox e ring
    sink := note (Account.arrival e (Message.load b.memory (b.host.arena.locate n))) b.sink },
    ?_, ?_, ?_⟩
  · rw [hrun, run_bind_ok hdeliver]
    rfl
  · refine ⟨?_, ?_, ?_, ?_⟩
    · cases e <;> exact h.separated
    · cases e <;> exact hw
    · cases e <;> exact fun i hi => h.slots i (List.mem_cons_of_mem _ hi)
    · rw [Host.receiver_withInbox]
      exact hholds
  · refine ⟨?_, ?_, hbytes⟩
    · rw [Host.receiver_withInbox]
      rfl
    · rw [Host.receiver_withInbox]
      exact hhead

/-- **A round that finds the inbox full halts the host**, before the observer is told. -/
theorem fetchOne_full (note : Event → σ → σ) (h : b.Receives e (n :: xs) pending others)
    (hfull : pending.length = 32) :
    ∃ b', (Host.fetchOne (Observer.passive note) e).run b = .error (.inboxOverflow e) b' ∧
      b'.sink = b.sink := by
  obtain ⟨m', -, -, hrun⟩ := h.fetchOne_cons note
  have hdeliver := Host.run_deliverBox_full (b := { b with memory := m' })
    (x := Box.holding (some n)) (Observer.passive note) h.inbox hfull
  refine ⟨{ b with memory := m' }, ?_, rfl⟩
  rw [hrun, run_bind_ok hdeliver]
  rfl

/-! ### All rounds -/

/-- **As many rounds as there is room for.** The buffers `xs` move to the inbox one by one, and the
loop goes on with `ys`. -/
theorem countRounds (note : Event → σ → σ) (h : b.Receives e (xs ++ ys) pending others)
    (hroom : pending.length + xs.length ≤ 32) (limit counted : Nat) :
    ∃ b', b'.Receives e ys (pending ++ boxesOf xs) others ∧ Fetched note e xs ys b b' ∧
      (Board.countRounds (Host.fetchOne (Observer.passive note) e) (limit + xs.length) counted).run
          b =
        (Board.countRounds (Host.fetchOne (Observer.passive note) e) limit
          (counted + xs.length)).run b' := by
  induction xs generalizing b pending counted with
  | nil =>
    refine ⟨b, ?_, .refl note e ys b, rfl⟩
    rwa [boxesOf, List.map_nil, List.append_nil]
  | cons n xs ih =>
    rw [List.length_cons] at hroom
    obtain ⟨b₁, hrun₁, h₁, hfetched₁⟩ := h.fetchOne note (by omega)
    obtain ⟨b₂, h₂, hfetched₂, hrun₂⟩ := ih h₁
      (by rw [List.length_append, boxesOf, List.length_map, List.length_singleton]; omega)
      (counted + 1)
    have harrivals : b₁.arrivals e xs = b.arrivals e xs := by
      have hboth : b₁.arrivals e (xs ++ ys) = b.arrivals e (xs ++ ys) :=
        Receives.arrivals_eq h hfetched₁
      rw [arrivals_append, arrivals_append] at hboth
      exact (List.append_inj hboth (by rw [arrivals, arrivals, List.length_map, List.length_map])).1
    refine ⟨b₂, ?_, hfetched₁.trans hfetched₂ harrivals, ?_⟩
    · rwa [List.append_assoc, boxesOf, boxesOf, ← List.map_append] at h₂
    · rw [List.length_cons, ← Nat.add_assoc, run_countRounds_of_true b _ counted hrun₁, hrun₂,
        Nat.add_assoc, Nat.add_comm 1]

end Receives

/-- What a drain leaves behind that has finished. -/
structure Drained (note : Event → σ → σ) (e : Endpoint) (queued : List NodeIndex)
    (pending : List Box) (others : Chain.Family) (b b' : Board σ) : Prop where
  /-- The queue is empty, the inbox has got all that was in it, in order, and the other chains are
  as they were. -/
  receives : b'.Receives e [] (pending ++ boxesOf queued) others
  /-- The oldest event is where it was. -/
  head : (b'.host.receiver e).inbox.head = (b.host.receiver e).inbox.head
  /-- The observer was told of the events that arrived, and of nothing else. -/
  told : b'.sink = Event.noteAll note (b.arrivals e queued) b.sink
  cleared : (b'.panel.get e.channel).peerFlag = false
  /-- Nothing else changed: no box, no other inbox, no other bell, neither the peer nor what the
  host knows of given-back buffers. -/
  eq : b' = { b with
    memory := b'.memory
    panel := b.panel.modify e.channel Bell.clear
    host := b.host.withInbox e (b'.host.receiver e).inbox
    sink := b'.sink }
  bytes : AgreeOff (b.host.arena.Links (· ∈ (b.host.receiver e).queue :: queued)) b.memory b'.memory
  /-- No slot has another payload. -/
  payload : ∀ n, b.host.arena.Has n → ∀ k,
    Within (b.host.arena.locate n + 16) (b.host.arena.width n - 16) k →
      b'.memory.get k = b.memory.get k

namespace Receives

/-- A drain finishes when everything in the queue fits into the inbox. -/
theorem drain_fits (note : Event → σ → σ) (h : b.Receives e queued pending others)
    (hroom : pending.length + queued.length ≤ 32) :
    ∃ b', (Host.fetchEvents (Observer.passive note) e).run b = .ok () b' ∧
      Drained note e queued pending others b b' := by
  rw [← List.append_nil queued] at h
  obtain ⟨limit, hlimit⟩ : ∃ limit, stepLimit = limit + 1 + queued.length := by
    have hlt := Chain.length_lt_stepLimit h.nodup
    rw [List.append_nil] at hlt
    exact ⟨stepLimit - queued.length - 1, by omega⟩
  obtain ⟨b₁, h₁, hfetched, hrounds⟩ := h.countRounds note hroom (limit + 1) 0
  have hdrain : (Board.drain (Host.fetchOne (Observer.passive note) e)).run b =
      .ok (0 + queued.length) b₁ := by
    rw [Board.drain, hlimit, hrounds, run_countRounds_of_false b₁ _ _ h₁.fetchOne_nil]
  have hpayload := fun n hn k hk => h.payload_eq hfetched (n := n) hn (k := k) hk
  have heq := hfetched.eq
  refine ⟨{ b₁ with panel := b₁.panel.modify e.channel Bell.clear }, ?_, ?_⟩
  · rw [Host.fetchEvents, run_bind_ok hdrain, Host.acknowledge, run_modifyBell]
  · refine ⟨{ h₁ with }, hfetched.head, ?_, ?_, ?_, ?_, hpayload⟩
    · show b₁.sink = _
      rw [heq]
    · show ((b₁.panel.modify e.channel Bell.clear).get e.channel).peerFlag = false
      rw [Panel.get_modify_self]
      rfl
    · rw [heq]
      simp only [Host.receiver_withInbox]
    · have hbytes := hfetched.bytes
      rwa [List.append_nil] at hbytes

/-- A drain halts at the first event that does not fit into the inbox. -/
theorem drain_overflows (note : Event → σ → σ) (h : b.Receives e queued pending others)
    (hover : 32 < pending.length + queued.length) :
    ∃ b', (Host.fetchEvents (Observer.passive note) e).run b = .error (.inboxOverflow e) b' ∧
      b'.sink = Event.noteAll note (b.arrivals e (queued.take (32 - pending.length))) b.sink := by
  have hpending : pending.length ≤ 32 := h.inbox.length_le
  obtain ⟨xs, n, ys, hqueued, hxs⟩ : ∃ xs n ys, queued = xs ++ n :: ys ∧
      xs.length = 32 - pending.length := by
    have hlt : 32 - pending.length < queued.length := by omega
    exact ⟨_, _, _, (List.take_append_drop (32 - pending.length) queued).symm.trans
      (by rw [List.drop_eq_getElem_cons hlt]), List.length_take_of_le (Nat.le_of_lt hlt)⟩
  have htake : queued.take (32 - pending.length) = xs := by
    rw [hqueued, ← hxs, List.take_left]
  rw [hqueued] at h
  obtain ⟨limit, hlimit⟩ : ∃ limit, stepLimit = limit + 1 + xs.length := by
    have hlt : 32 < stepLimit := by decide
    exact ⟨stepLimit - xs.length - 1, by omega⟩
  obtain ⟨b₁, h₁, hfetched, hrounds⟩ := h.countRounds note (by omega) (limit + 1) 0
  obtain ⟨b₂, hrun, hsink⟩ := h₁.fetchOne_full note
    (by rw [List.length_append, boxesOf, List.length_map]; omega)
  refine ⟨b₂, ?_, ?_⟩
  · have hdrain : (Board.drain (Host.fetchOne (Observer.passive note) e)).run b =
        .error (.inboxOverflow e) b₂ := by
      rw [Board.drain, hlimit, hrounds, run_countRounds_of_error b₁ _ _ hrun]
    rw [Host.fetchEvents, run_bind_error hdrain]
  · rw [hsink, htake, hfetched.eq]

/-- **The interrupt routine of an endpoint finishes exactly if everything in the queue fits into the
inbox.** It then has moved everything, in order, has told of each event as it lay in its packet, and
has cleared the flag of the peer; nothing was given back, and no payload changed. Otherwise it halts
after it has told of as many events as there was room for. -/
theorem drains_iff_fits (note : Event → σ → σ) (h : b.Receives e queued pending others) :
    ((∃ b', (Host.fetchEvents (Observer.passive note) e).run b = .ok () b') ↔
        pending.length + queued.length ≤ 32) ∧
      (∀ b', (Host.fetchEvents (Observer.passive note) e).run b = .ok () b' →
        Drained note e queued pending others b b') ∧
      (32 < pending.length + queued.length →
        ∃ b', (Host.fetchEvents (Observer.passive note) e).run b = .error (.inboxOverflow e) b' ∧
          b'.sink =
            Event.noteAll note (b.arrivals e (queued.take (32 - pending.length))) b.sink) := by
  have hfits : ∀ b', (Host.fetchEvents (Observer.passive note) e).run b = .ok () b' →
      pending.length + queued.length ≤ 32 := by
    intro b' hrun
    by_contra hover
    obtain ⟨b₁, herror, -⟩ := h.drain_overflows note (Nat.lt_of_not_le hover)
    rw [hrun] at herror
    cases herror
  refine ⟨⟨fun ⟨b', hrun⟩ => hfits b' hrun, fun hroom => ?_⟩, fun b' hrun => ?_,
    h.drain_overflows note⟩
  · obtain ⟨b', hrun, -⟩ := h.drain_fits note hroom
    exact ⟨b', hrun⟩
  · obtain ⟨b₁, hrun₁, hdrained⟩ := h.drain_fits note (hfits b' hrun)
    rw [hrun₁] at hrun
    injection hrun with _ hb
    exact hb ▸ hdrained

end Receives

/-- Thirty-one events in an inbox whose counters are about to wrap. -/
def crowd : List Box := boxesOf ((List.range 31).map fun i => UInt16.ofNat (i + 6))

/-- An inbox that holds them. -/
def crowdedInbox : Inbox where
  slots := Vector.ofFn fun i => crowd[(i.val + 2) % 32]?.getD Box.empty
  head := 0xFFFFFFFFFFFFFFFE
  tail := 29

theorem holds_crowdedInbox : crowdedInbox.Holds Box.empty crowd where
  length_le := by decide
  tail := by decide
  slot := by decide +kernel

/-- A host with thirty-three event slots of its own, and some memory. -/
def crowded (m : Memory) : Board (List Event) where
  memory := m
  panel := Panel.reset
  clockEnables := 0
  host := (Host.fresh Placement.standard
    ⟨[⟨0x20000000, 16, 0, 4⟩, ⟨0x20001000, 276, 4, 33⟩, ⟨0x20008000, 16, 37, 1⟩], 38⟩ {}).withInbox
      .ble crowdedInbox
  peer := default
  boxes := #[]
  sink := []

/-- The queue of such a host is filled. -/
theorem exists_crowded (queued : List NodeIndex)
    (hlegal : Chain.Edit.LegalAll (crowded Memory.zero).host.arena []
      (.init 0 :: queued.map (.pushBack 0)))
    (hqueued : Chain.Edit.applyAll [] (.init 0 :: queued.map (.pushBack 0)) = [(0, queued)])
    (hslots : ∀ n ∈ queued, Packet.slotSize ≤ (crowded Memory.zero).host.arena.width n) :
    ∃ m, (crowded m).Receives .ble queued crowd [] := by
  have hregister : Host.registerAll {}
      [⟨0x20000000, 16, 4⟩, ⟨0x20001000, 276, 33⟩, ⟨0x20008000, 16, 1⟩] =
      .ok (crowded Memory.zero).host.arena := rfl
  have hsep := Arena.separated_of_registerAll hregister (by decide) (by decide)
  obtain ⟨m, -, hw⟩ := Chain.WellFormed.runAll (m := Memory.zero) hsep .nil _ hlegal
  rw [hqueued] at hw
  exact ⟨m, hsep, hw, hslots, holds_crowdedInbox⟩

/-- With thirty-one events in the inbox a drain of one event finishes, and a drain of two halts
after the first. -/
theorem Receives.drains_iff_fits_crowded :
    (∃ m b', (Host.fetchEvents (Observer.passive fun x xs => xs ++ [x]) .ble).run (crowded m) =
        .ok () b' ∧
      Drained (fun x xs => xs ++ [x]) .ble [4] crowd [] (crowded m) b') ∧
    ∃ m b', (Host.fetchEvents (Observer.passive fun x xs => xs ++ [x]) .ble).run (crowded m) =
        .error (.inboxOverflow .ble) b' ∧
      b'.sink = (crowded m).arrivals .ble [4] := by
  obtain ⟨m₁, h₁⟩ := exists_crowded [4] (by decide) (by decide)
    (List.forall_mem_singleton.mpr (by decide))
  obtain ⟨m₂, h₂⟩ := exists_crowded [4, 5] (by decide) (by decide)
    (List.forall_mem_cons.mpr ⟨by decide, List.forall_mem_singleton.mpr (by decide)⟩)
  obtain ⟨hfits, hdrained, -⟩ := h₁.drains_iff_fits fun x xs => xs ++ [x]
  obtain ⟨-, -, hover⟩ := h₂.drains_iff_fits fun x xs => xs ++ [x]
  obtain ⟨b₁, hrun₁⟩ := hfits.mpr (by decide)
  obtain ⟨b₂, hrun₂, hsink⟩ := hover (by decide)
  exact ⟨⟨m₁, b₁, hrun₁, hdrained b₁ hrun₁⟩, m₂, b₂, hrun₂, hsink⟩

end Board

/-! ### Boards of the two cores -/

/-- The queue of an endpoint and all other lines. -/
theorem Line.made_perm_queue (traces : Bool) (e : Endpoint) :
    (made traces).Perm (shared e.queue :: (made traces).erase (shared e.queue)) :=
  List.perm_cons_erase (mem_made_of_ne traces (by cases e <;> decide))

/-- **Any board that shows an account qualifies**, for both endpoints. -/
theorem Board.Shows.receives {p : Placement} {sw : Switches} {b : Board σ} {s : Account σ}
    (h : b.Shows p sw s) (e : Endpoint) :
    b.Receives e (s.line (.shared e.queue)) (boxesOf (s.inbox e))
      (((Line.made sw.traces).erase (.shared e.queue)).map fun l => (l.head, s.line l)) where
  separated := by
    rw [h.host.arena]
    exact h.valid.separated
  chains := by
    have hperm := (Line.made_perm_queue sw.traces e).map fun l : Line => (l.head, s.line l)
    rw [h.host.arena, h.host.receiver_queue e]
    exact h.carries.chains.perm hperm
  slots n hn := by
    have hslot := h.carries.mem_slots_of_mem hn
    have hwidth : ∀ k < 11, 4 ≤ k → Packet.slotSize ≤ (slotExtent k).length := by decide
    obtain ⟨hlow, hhigh⟩ := mem_slots_iff.mp hslot
    rw [h.host.arena, (h.valid.slot_eq (has_of_mem_slots hslot)).2]
    exact hwidth _ hhigh hlow
  inbox := h.inbox e

end InterCore
