import InterCore.Proofs.Handling
import InterCore.Proofs.Interleaving

/-!
# Refused operations

A send is refused when what it is given does not fit its buffer, and a system command also while
another one is outstanding, which is looked at first. The peer refuses to deliver without a queue,
without a free slot, or what does not fit a slot. In each case the decision comes before the first
effect: the board stays as it is, and only the observer of a send is told.

## Main definitions

* `Sending`: one of the five sends, with what it is given.
* `Sending.Blocked`: a system command is outstanding, and this would be another one.
* `Sending.Decides`: how a send ends, whatever its observer does when it is told.
* `Feed.target`: where the peer finds the queue that it fills.
* `Feed.Decides`: how a delivery ends.

## Main results

* `Sending.decides`, `Feed.decides`: the decisions on every board.
* `Board.refusals_change_nothing`: both, and when the peer finds a queue.
-/

namespace InterCore

variable {σ : Type}

/-! ### Sends -/

/-- One of the five sends, with what it is given. -/
inductive Sending where
  | commandSerial (bytes : List UInt8)
  | command (opcode : UInt16) (parameters : List UInt8)
  | aclSerial (bytes : List UInt8)
  | acl (handle : UInt16) (data : List UInt8)
  | systemCommand (opcode : UInt16) (parameters : List UInt8)
  deriving DecidableEq, Repr

namespace Sending

/-- The program of a send. -/
def run (observer : Observer σ) : Sending → BoardM σ Host.SendResult
  | commandSerial bytes => Host.sendCommandSerial observer bytes
  | command opcode parameters => Host.sendCommand observer opcode parameters
  | aclSerial bytes => Host.sendAclSerial observer bytes
  | acl handle data => Host.sendAcl observer handle data
  | systemCommand opcode parameters => Host.sendSystemCommand observer opcode parameters

/-- The channel that a send rings. -/
def channel : Sending → Channel
  | commandSerial _ | command _ _ => .bleCommand
  | aclSerial _ | acl _ _ => .aclData
  | systemCommand _ _ => .systemCommand

/-- What a send is offered. -/
def input : Sending → List UInt8
  | commandSerial bytes | aclSerial bytes => bytes
  | command _ parameters | systemCommand _ parameters => parameters
  | acl _ data => data

/-- How much a send has room for. -/
def capacity : Sending → Nat
  | commandSerial _ => Packet.commandCapacity
  | command _ _ | systemCommand _ _ => Packet.commandPayload
  | aclSerial _ => Packet.aclCapacity
  | acl _ _ => Packet.aclPayload

/-- What an observer is told of a refused send. -/
def rejection (s : Sending) : Event where
  kind := .sendRejected
  channel := s.channel.number
  length := Host.offered s.input
  code := 0

/-- A system command is outstanding, and this would be another one. -/
def Blocked (b : Board σ) (s : Sending) : Prop :=
  s.channel = .systemCommand ∧ b.host.systemBusy = true

instance (b : Board σ) (s : Sending) : Decidable (s.Blocked b) :=
  inferInstanceAs (Decidable (_ ∧ _))

/-- How a send ends on a board, whatever its observer does when it is told. -/
structure Decides (b : Board σ) (s : Sending) : Prop where
  /-- While a system command is outstanding, another one is refused whatever its length. -/
  blocked : s.Blocked b → ∀ observer, (s.run observer).run b =
    (observer s.rejection >>= fun _ => pure (.error .channelBusy)).run b
  oversized : ¬ s.Blocked b → s.capacity < s.input.length → ∀ observer, (s.run observer).run b =
    (observer s.rejection >>= fun _ => pure (.error .payloadTooLarge)).run b
  /-- A send that is accepted does what it does to the board first, and tells the observer last. -/
  accepted : ¬ s.Blocked b → s.input.length ≤ s.capacity → ∃ b' e, ∀ observer,
    (s.run observer).run b = (observer e >>= fun _ => pure (.ok ())).run b'

variable {b : Board σ}

theorem decides_commandSerial (bytes : List UInt8) : (commandSerial bytes).Decides b where
  blocked h := by cases h.1
  oversized _ h observer := by
    change Packet.commandCapacity < bytes.length at h
    rw [run, Host.sendCommandSerial, if_pos h]
    rfl
  accepted _ h := by
    have hfits : ¬ Packet.commandCapacity < bytes.length := Nat.not_lt.mpr h
    let p := Packet.serial (b.host.place.address .bleCommand)
    refine ⟨{ b with
      memory := (b.memory.write (p + 1) bytes).set p PacketKind.bleCommand.code
      panel := b.panel.modify .bleCommand Bell.ring }, ⟨.commandSent, Channel.bleCommand.number,
        Host.offered bytes, PacketKind.bleCommand.code⟩, fun observer => ?_⟩
    rw [run, Host.sendCommandSerial, if_neg hfits]
    rfl

theorem decides_aclSerial (bytes : List UInt8) : (aclSerial bytes).Decides b where
  blocked h := by cases h.1
  oversized _ h observer := by
    change Packet.aclCapacity < bytes.length at h
    rw [run, Host.sendAclSerial, if_pos h]
    rfl
  accepted _ h := by
    have hfits : ¬ Packet.aclCapacity < bytes.length := Nat.not_lt.mpr h
    let p := Packet.serial (b.host.place.address .aclData)
    refine ⟨{ b with
      memory := (b.memory.write (p + 1) bytes).set p PacketKind.aclData.code
      host := { b.host with aclInFlight := true }
      panel := (b.panel.modify .aclData Bell.ring).modify .aclData (·.enableTx true) },
        ⟨.aclSent, Channel.aclData.number, Host.offered bytes, PacketKind.aclData.code⟩,
        fun observer => ?_⟩
    rw [run, Host.sendAclSerial, if_neg hfits]
    rfl

/-- A send that checks a part and then sends the whole decides as the whole does, when the whole
fits wherever the part does. -/
theorem decides_of_whole {s t : Sending} (ht : t.Decides b) (hs : s.channel ≠ .systemCommand)
    (hchannel : t.channel = s.channel)
    (hlength : s.input.length ≤ s.capacity → t.input.length ≤ t.capacity)
    (hrun : ∀ observer : Observer σ, s.run observer =
      if s.capacity < s.input.length then
        Host.reject observer s.channel s.input .payloadTooLarge
      else t.run observer) : s.Decides b where
  blocked h := absurd h.1 hs
  oversized _ h observer := by
    rw [hrun, if_pos h]
    rfl
  accepted _ h := by
    obtain ⟨b', e, haccepted⟩ := ht.accepted (fun hb => hs (hchannel ▸ hb.1)) (hlength h)
    exact ⟨b', e, fun observer => by rw [hrun, if_neg (Nat.not_lt.mpr h), haccepted]⟩

theorem decides_command (opcode : UInt16) (parameters : List UInt8) :
    (command opcode parameters).Decides b := by
  refine decides_of_whole (decides_commandSerial (Host.commandBytes opcode parameters))
    (fun h => by cases h) rfl (fun h => ?_) fun _ => rfl
  change (Host.commandBytes opcode parameters).length ≤ Packet.commandCapacity
  rw [Host.length_commandBytes]
  exact Nat.add_le_add_left h 3

theorem decides_acl (handle : UInt16) (data : List UInt8) : (acl handle data).Decides b := by
  refine decides_of_whole (decides_aclSerial (Host.aclBytes handle data))
    (fun h => by cases h) rfl (fun h => ?_) fun _ => rfl
  change (Host.aclBytes handle data).length ≤ Packet.aclCapacity
  rw [Host.length_aclBytes]
  exact Nat.add_le_add_left h 4

theorem decides_systemCommand (opcode : UInt16) (parameters : List UInt8) :
    (systemCommand opcode parameters).Decides b where
  blocked h observer := by
    rw [run, Host.sendSystemCommand, Board.run_get_bind, if_pos h.2]
    rfl
  oversized hb h observer := by
    change Packet.commandPayload < parameters.length at h
    rw [run, Host.sendSystemCommand, Board.run_get_bind, if_neg fun hbusy => hb ⟨rfl, hbusy⟩,
      if_pos h]
    rfl
  accepted hb h := by
    have hfits : ¬ Packet.commandPayload < parameters.length := Nat.not_lt.mpr h
    let p := Packet.serial (b.host.place.address .systemCommand)
    refine ⟨{ b with
      memory := b.memory.write p
        (PacketKind.systemCommand.code :: Host.commandBytes opcode parameters)
      host := { b.host with systemBusy := true, responseReady := false }
      panel := (b.panel.modify .systemCommand Bell.ring).modify .systemCommand (·.enableTx true) },
        ⟨.systemCommandSent, Channel.systemCommand.number, Host.offered parameters,
          PacketKind.systemCommand.code⟩, fun observer => ?_⟩
    rw [run, Host.sendSystemCommand, Board.run_get_bind, if_neg fun hbusy => hb ⟨rfl, hbusy⟩,
      if_neg hfits]
    rfl

/-- **Every send decides before it does anything.** -/
theorem decides (b : Board σ) : (s : Sending) → s.Decides b
  | commandSerial bytes => decides_commandSerial bytes
  | command opcode parameters => decides_command opcode parameters
  | aclSerial bytes => decides_aclSerial bytes
  | acl handle data => decides_acl handle data
  | systemCommand opcode parameters => decides_systemCommand opcode parameters

end Sending

/-- How a send ends on a board when the observer only keeps notes. -/
structure Board.Refuses (note : Event → σ → σ) (b : Board σ) (s : Sending) : Prop where
  busy : s.Blocked b → (s.run (Observer.passive note)).run b =
    .ok (.error .channelBusy) { b with sink := note s.rejection b.sink }
  long : ¬ s.Blocked b → s.capacity < s.input.length → (s.run (Observer.passive note)).run b =
    .ok (.error .payloadTooLarge) { b with sink := note s.rejection b.sink }
  fits : ¬ s.Blocked b → s.input.length ≤ s.capacity →
    ∃ b', (s.run (Observer.passive note)).run b = .ok (.ok ()) b'

/-- **A refused send leaves the board as it is**, but for one note of the observer. -/
theorem Sending.Decides.refuses {b : Board σ} {s : Sending} (h : s.Decides b)
    (note : Event → σ → σ) : b.Refuses note s where
  busy hb := h.blocked hb _
  long hb hlong := h.oversized hb hlong _
  fits hb hfits := by
    obtain ⟨b₁, e, hrun⟩ := h.accepted hb hfits
    exact ⟨_, hrun _⟩

/-! ### Deliveries -/

namespace Feed

/-- Where the peer finds the queue that it fills. -/
def target (b : Board σ) (f : Feed) : Address :=
  let references := ReferenceTable.load b.memory b.peer.referenceTable
  match f with
  | events .ble => (BleTable.load b.memory references.ble).eventQueue
  | events .system => (SystemTable.load b.memory references.system).eventQueue
  | traces => (TracesTable.load b.memory references.traces).queue

/-- The peer finds a queue to fill. -/
def Published (b : Board σ) (f : Feed) : Prop := f.target b ≠ Address.null

instance (b : Board σ) (f : Feed) : Decidable (f.Published b) := inferInstanceAs (Decidable (_ ≠ _))

/-- What the peer writes into a slot for a queue. -/
def kind : Feed → PacketKind
  | events .ble => .bleEvent
  | events .system => .systemEvent
  | traces => .wirelessTrace

/-- The code of what is delivered. A trace record has no code of its own. -/
def code (given : UInt8) : Feed → UInt8
  | events _ => given
  | traces => EventCode.vendorSpecific.code

/-- **A delivery looks for its queue and delivers to it.** -/
theorem run_deliver (b : Board σ) (f : Feed) (given : UInt8) (data : List UInt8) :
    (f.deliver given data).run b =
      (Peer.deliver (f.target b) f.kind (f.code given) data f.channel).run b := by
  have hreferences : Peer.references.run b =
      .ok (ReferenceTable.load b.memory b.peer.referenceTable) b := rfl
  have hble : Peer.bleTable.run b = .ok (BleTable.load b.memory
      (ReferenceTable.load b.memory b.peer.referenceTable).ble) b := rfl
  have hsystem : Peer.systemTable.run b = .ok (SystemTable.load b.memory
      (ReferenceTable.load b.memory b.peer.referenceTable).system) b := rfl
  rcases f with (_ | _) | _
  · exact Board.run_bind_ok hble
  · exact Board.run_bind_ok hsystem
  · exact (Board.run_bind_ok hreferences).trans (Board.run_get_bind b _)

/-- How a delivery ends. -/
structure Decides (b : Board σ) (given : UInt8) (data : List UInt8) (f : Feed) : Prop where
  refused : ¬ f.Published b ∨ b.peer.free = [] ∨ Packet.eventPayload < data.length →
    (f.deliver given data).run b = .ok false b
  accepted : f.Published b → b.peer.free ≠ [] → data.length ≤ Packet.eventPayload →
    ∃ b', (f.deliver given data).run b = .ok true b'

/-- **Every delivery decides before it does anything.** -/
theorem decides (b : Board σ) (given : UInt8) (data : List UInt8) (f : Feed) :
    f.Decides b given data where
  refused h := by
    rw [run_deliver, Peer.deliver, Board.run_get_bind]
    cases hfree : b.peer.free with
    | nil => rfl
    | cons slot rest =>
      have hrefused : f.target b = Address.null ∨ Packet.eventPayload < data.length := by
        rcases h with h | h | h
        · exact Or.inl (not_not.mp h)
        · rw [hfree] at h
          cases h
        · exact Or.inr h
      dsimp only
      rw [if_pos hrefused]
      rfl
  accepted hpublished hnonempty hfits := by
    rw [run_deliver, Peer.deliver, Board.run_get_bind]
    cases hfree : b.peer.free with
    | nil => exact absurd hfree hnonempty
    | cons slot rest =>
      dsimp only
      rw [if_neg (not_or.mpr ⟨hpublished, Nat.not_lt.mpr hfits⟩)]
      exact ⟨_, rfl⟩

end Feed

/-- The peer finds every queue but that of traces that are switched off. -/
theorem Board.Shows.published_iff {p : Placement} {sw : Switches} {b : Board σ} {s : Account σ}
    (h : b.Shows p sw s) (f : Feed) : f.Published b ↔ (f = .traces → sw.traces = true) := by
  have hreferences : ReferenceTable.load b.memory b.peer.referenceTable = p.references := by
    rw [h.carries.peer_table]
    exact h.carries.published.references
  have hble : BleTable.load b.memory p.references.ble = p.bleTable := h.carries.published.ble
  have hsystem : SystemTable.load b.memory p.references.system = p.systemTable :=
    h.carries.published.system
  have htraces : TracesTable.load b.memory p.references.traces = p.tracesTable sw.traces :=
    h.carries.published.traces
  unfold Feed.Published Feed.target
  rw [hreferences]
  rcases f with (_ | _) | _
  · dsimp only
    rw [hble]
    exact iff_of_true (h.valid.address_ne_null (.queue .ble)) (fun h => by cases h)
  · dsimp only
    rw [hsystem]
    exact iff_of_true (h.valid.address_ne_null (.queue .system)) (fun h => by cases h)
  · dsimp only
    rw [htraces, Placement.tracesTable]
    cases sw.traces with
    | false => exact iff_of_false (not_not_intro rfl) (fun h => absurd (h rfl) Bool.false_ne_true)
    | true => exact iff_of_true (h.valid.address_ne_null (.queue .traces)) fun _ => rfl

/-! ### Boards of the two cores -/

/-- **What is refused changes nothing**, on every board. A send ends with an error exactly if it is
too long or blocked, whatever its observer does; with an observer that only keeps notes, the board
is then as before but for one note. A delivery fails exactly if the peer finds no queue, has no
slot, or is given too much, and the board is then as before. On the boards that a use of the two
cores leads to, the peer finds every queue but that of traces that are switched off. -/
theorem Board.refusals_change_nothing (note : Event → σ → σ) :
    (∀ (b : Board σ) (s : Sending), s.Decides b ∧ b.Refuses note s) ∧
    (∀ (b : Board σ) (f : Feed) (given : UInt8) (data : List UInt8), f.Decides b given data) ∧
    ∀ (p : Placement) (sw : Switches) (b₀ b : Board σ), p.Valid →
      (∀ x ∈ b₀.boxes, x = Box.empty) → Usage p sw note b₀ b →
        ∀ f : Feed, f.Published b ↔ (f = .traces → sw.traces = true) := by
  refine ⟨fun b s => ⟨s.decides b, (s.decides b).refuses note⟩,
    fun b f given data => f.decides b given data, ?_⟩
  intro p sw b₀ b hp hboxes husage f
  obtain ⟨s, hshows, -⟩ := husage.exists_shows hp hboxes
  exact hshows.published_iff f

/-- The peer has answered a system command in place, and the transmit interrupt has not come yet.
Another command, too long as well, is refused as one too many and leaves the answer alone; a trace
record has no queue to go to. -/
theorem Board.refusals_change_nothing_session : ∃ (b : Board Demo.Console),
    Usage Placement.standard {} (fun _ x => x) Demo.blank b ∧
      Message.load b.memory (b.host.place.address .systemCommand) =
        ⟨PacketKind.systemResponse.code, EventCode.commandComplete.code, 4, [1, 0x56, 0xFC, 3]⟩ ∧
      ((Sending.systemCommand 0xFC57 (List.replicate 256 7)).run
        (Observer.passive fun _ x => x)).run b = .ok (.error .channelBusy) b ∧
      (Feed.traces.deliver 0 [1]).run b = .ok false b := by
  obtain ⟨hsends, hdeliveries, hpublished⟩ := @refusals_change_nothing Demo.Console fun _ x => x
  have hsession : (Call.session Placement.standard {} (fun _ x => x)
      ([.sendSystemCommand 0xFC56 [1, 2], .answerSystemCommand 3].map Call.operation)
      Demo.blank).map (fun b => (b.host.systemBusy,
        Message.load b.memory (b.host.place.address .systemCommand))) =
      some (true, ⟨PacketKind.systemResponse.code, EventCode.commandComplete.code, 4,
        [1, 0x56, 0xFC, 3]⟩) := by decide +kernel
  obtain ⟨b, hsession, hread⟩ := Option.map_eq_some_iff.mp hsession
  obtain ⟨hbusy, hview⟩ := Prod.mk.inj hread
  obtain ⟨ts, hcalls, -⟩ := Calls.of_session hsession
  have husage := Usage.of_calls hcalls
  refine ⟨b, husage, hview, (hsends b _).2.busy ⟨rfl, hbusy⟩, ?_⟩
  refine (hdeliveries b .traces 0 [1]).refused (Or.inl fun htraces => ?_)
  have := (hpublished _ _ _ _ Placement.valid_standard Demo.boxes_blank husage .traces).mp htraces
  exact absurd (this rfl) (by decide)

end InterCore
