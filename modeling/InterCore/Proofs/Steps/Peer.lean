import InterCore.Proofs.Steps.Interrupts
import InterCore.Proofs.Steps.Send

/-!
# The peer, on accounts

What the steps of the peer do to an account. It finds its way through the published tables, fills
the first slot of its own record and queues it, and takes given-back buffers as slots to fill.

## Main definitions

* `Account.deliver`: the peer fills a slot and queues it.
* `Account.reclaim`: the peer takes every buffer of the shared free queue.
* `Account.takePacket`, `Account.answerSystemCommand`, `Account.writeCommandStatus`: what it does
  with commands and data.

## Main results

* `Board.Shows.deliver`, `Board.Shows.reclaim` and so on: the programs of the peer do this.
-/

namespace InterCore

open Memory

variable {σ : Type}

/-! ### Finding the tables -/

namespace Board.Shows

variable {p : Placement} {sw : Switches} {b : Board σ} {s : Account σ} (h : b.Shows p sw s)
include h

theorem references : Yields p sw Peer.references b p.references s :=
  ⟨b, h.ready.run_references, h⟩

theorem bleTable : Yields p sw Peer.bleTable b p.bleTable s := ⟨b, h.ready.run_bleTable, h⟩

theorem systemTable : Yields p sw Peer.systemTable b p.systemTable s :=
  ⟨b, h.ready.run_systemTable, h⟩

end Board.Shows

namespace Account

variable (p : Placement) (s : Account σ)

/-- The peer fills its first slot and queues it, unless it has none or the payload is too long. -/
def deliver (q : Queue) (kind : PacketKind) (code : UInt8) (data : List UInt8)
    (c : Channel) : Account σ :=
  match s.free with
  | [] => s
  | n :: ns =>
    if Packet.eventPayload < data.length then s
    else
      let s := { s with free := ns }
      ((s.modifyBytes fun m => Packet.putEvent m (p.arena.locate n) kind.code code
        (UInt8.ofNat data.length) data).append (.shared q) n).modifyBell c Bell.signal

/-- The peer has a slot for the payload. -/
def accepts (data : List UInt8) : Bool :=
  !s.free.isEmpty && decide (data.length ≤ Packet.eventPayload)

/-- If the release doorbell is set, the peer takes every buffer of the shared free queue. -/
def reclaim : Account σ :=
  if (s.panel.get .release).hostFlag then
    let s := { s with free := (s.line (.shared .free)).reverse ++ s.free }
    (s.setLine (.shared .free) []).modifyBell .release Bell.acknowledge
  else s

/-- How many buffers the peer takes. -/
def reclaimed : Nat :=
  if (s.panel.get .release).hostFlag then (s.line (.shared .free)).length else 0

/-- If the doorbell of a channel is set, it is acknowledged. -/
def takePacket (c : Channel) : Account σ :=
  if (s.panel.get c).hostFlag then s.modifyBell c Bell.acknowledge else s

/-- The packet that the peer takes from a buffer. -/
def packet (c : Channel) (format : Format) (o : Object) : Option (List UInt8) :=
  if (s.panel.get c).hostFlag then
    some (s.bytes.read (Packet.serial (p.address o)) format.size)
  else none

/-- The peer answers a system command in its own buffer. -/
def answerSystemCommand (status : UInt8) : Account σ :=
  if (s.panel.get .systemCommand).hostFlag then
    let a := p.address .systemCommand
    let s := s.modifyBytes fun m => Packet.putEvent m a PacketKind.systemResponse.code
      EventCode.commandComplete.code 4 (1 :: (m.read (Packet.serial a + 1) 2 ++ [status]))
    s.modifyBell .systemCommand Bell.acknowledge
  else s

/-- The peer writes a command status. -/
def writeCommandStatus (status : UInt8) (opcode : UInt16) : Account σ :=
  s.modifyBytes fun m => Packet.putEvent m (p.address .commandStatus) PacketKind.bleEvent.code
    EventCode.commandStatus.code 4 ([status, 1] ++ LittleEndian.encode 2 opcode.toNat)

/-! ### Places -/

variable {p s} {n : NodeIndex} {ns xs : List NodeIndex}

/-- The peer's first slot leaves its record. -/
theorem places_takeFree (hfree : s.free = n :: ns) :
    (n :: ({ s with free := ns } : Account σ).places).Perm s.places := by
  rw [places, places, hfree]
  exact .refl _

theorem places_deliver (q : Queue) (kind : PacketKind) (code : UInt8) (data : List UInt8)
    (c : Channel) : (s.deliver p q kind code data c).places.Perm s.places := by
  rw [deliver]
  split
  · exact .refl _
  · next n ns hfree =>
    split
    · exact .refl _
    · exact (places_append ({ s with free := ns } : Account σ) (.shared q) n).trans
        (places_takeFree hfree)

theorem places_append_free (s : Account σ) (xs : List NodeIndex) :
    ({ s with free := xs ++ s.free } : Account σ).places = xs ++ s.places := by
  simp only [places, List.append_assoc]

theorem places_reclaim : s.reclaim.places.Perm s.places := by
  rw [reclaim]
  split
  · have hall : ((s.line (.shared .free)).reverse ++ (s.setLine (.shared .free) []).places).Perm
        s.places := by
      refine places_setLine [] _ ?_
      rw [List.append_nil]
      exact List.reverse_perm _
    rwa [← places_append_free] at hall
  · exact .refl _

end Account

/-! ### The programs -/

namespace Board.Shows

variable {p : Placement} {sw : Switches} {b : Board σ} {s : Account σ} (h : b.Shows p sw s)
include h

/-- **The peer fills a slot and queues it.** -/
theorem deliver {q : Queue} (hq : Line.shared q ∈ Line.made sw.traces)
    (kind : PacketKind) (code : UInt8) (data : List UInt8) (c : Channel) :
    Yields p sw (Peer.deliver (p.address (.queue q)) kind code data c) b (s.accepts data)
      (s.deliver p q kind code data c) := by
  have hpeer : b.peer.free = s.free.map p.arena.locate := h.carries.peer_free
  refine Yields.get ?_
  rw [Account.deliver, Account.accepts]
  cases hfree : s.free with
  | nil =>
    rw [hfree, List.map_nil] at hpeer
    rw [hpeer]
    exact h.pure false
  | cons n ns =>
    rw [hfree, List.map_cons] at hpeer
    rw [hpeer]
    dsimp only
    by_cases hlong : Packet.eventPayload < data.length
    · rw [if_pos (Or.inr hlong), if_pos hlong, decide_eq_false (Nat.not_le.mpr hlong),
        Bool.and_false]
      exact h.pure false
    · have hshort := Nat.not_lt.mp hlong
      rw [if_neg (not_or.mpr ⟨h.valid.address_ne_null _, hlong⟩), if_neg hlong,
        decide_eq_true hshort]
      have hcarries := h.carries
      rw [hfree] at hcarries
      obtain ⟨hagree, hcarries'⟩ := hcarries.fill h.valid hq kind.code code hshort
      have hlength : (kind.code :: code :: UInt8.ofNat data.length :: data).length ≤ UInt64.size :=
        Nat.le_trans (Nat.add_le_add_right hshort 3) (by decide)
      exact ⟨_, rfl, { h with
        carries := hcarries'
        bytes := (h.bytes.write _ hlength).trans hagree
        panel := congrArg (·.modify c Bell.signal) h.panel }⟩

/-- The peer delivers a BLE event. -/
theorem deliverEvent (code : UInt8) (data : List UInt8) :
    Yields p sw (Peer.deliverEvent code data) b (s.accepts data)
      (s.deliver p .ble .bleEvent code data .bleEvent) :=
  h.bleTable.bind fun _ h₁ =>
    h₁.deliver (Line.mem_made_of_ne sw.traces (by decide)) .bleEvent code data .bleEvent

/-- The peer delivers a system event. -/
theorem deliverSystemEvent (code : UInt8) (data : List UInt8) :
    Yields p sw (Peer.deliverSystemEvent code data) b (s.accepts data)
      (s.deliver p .system .systemEvent code data .systemEvent) :=
  h.systemTable.bind fun _ h₁ =>
    h₁.deliver (Line.mem_made_of_ne sw.traces (by decide)) .systemEvent code data .systemEvent

/-- Without a queue the peer delivers nothing. -/
theorem deliver_null (kind : PacketKind) (code : UInt8) (data : List UInt8) (c : Channel) :
    Yields p sw (Peer.deliver Address.null kind code data c) b false s := by
  refine Yields.get ?_
  cases b.peer.free with
  | nil => exact h.pure false
  | cons slot rest =>
    dsimp only
    rw [if_pos (Or.inl rfl)]
    exact h.pure false

/-- The peer delivers a trace record, if traces are switched on. -/
theorem deliverTrace (data : List UInt8) :
    Yields p sw (Peer.deliverTrace data) b (sw.traces && s.accepts data)
      (if sw.traces then
        s.deliver p .traces .wirelessTrace EventCode.vendorSpecific.code data .traces
      else s) := by
  refine h.references.bind fun b₁ h₁ => ?_
  refine Yields.get ?_
  have htraces : TracesTable.load b₁.memory p.references.traces = p.tracesTable sw.traces :=
    h₁.carries.published.traces
  rw [htraces, Placement.tracesTable]
  cases ht : sw.traces with
  | false => exact h₁.deliver_null _ _ _ _
  | true =>
    rw [Bool.true_and]
    exact h₁.deliver (Line.mem_made_iff.mpr fun _ => ht) _ _ _ _

/-- **The peer takes every given-back buffer.** -/
theorem reclaim : Yields p sw Peer.reclaim b s.reclaimed s.reclaim := by
  rw [Account.reclaim, Account.reclaimed]
  split
  · next hflag =>
    rw [← h.panel] at hflag
    obtain ⟨m', hrun, hagree, hready⟩ := h.ready.reclaim h.valid hflag
    exact ⟨_, hrun, { h with
      host := hready.host
      carries := hready.carries
      bytes := h.bytes.trans hagree
      panel := congrArg (·.modify .release Bell.acknowledge) h.panel }⟩
  · next hflag =>
    rw [← h.panel] at hflag
    exact ⟨b, Ready.reclaim_unset (Bool.eq_false_of_not_eq_true hflag), h⟩

/-- The peer copies a packet that is announced. -/
theorem takePacket (c : Channel) (format : Format) {o : Object} (ho : o ∈ Object.buffers)
    (hsize : 16 + format.size ≤ o.size) :
    Yields p sw (Peer.takePacket c format (p.address o)) b (s.packet p c format o)
      (s.takePacket c) := by
  refine (h.bell c).bind fun b₁ h₁ => ?_
  rw [Account.takePacket, Account.packet]
  split
  · refine Yields.get ?_
    have hread := h₁.read_object ho (x := 16) (n := format.size) hsize
    rw [Packet.serial, hread]
    exact (h₁.modifyBell c _).bind fun b₂ h₂ => h₂.pure _
  · exact h₁.pure none

/-- The peer takes the BLE command. -/
theorem takeCommand : Yields p sw Peer.takeCommand b (s.packet p .bleCommand .command .bleCommand)
    (s.takePacket .bleCommand) :=
  h.bleTable.bind fun _ h₁ =>
    h₁.takePacket .bleCommand .command (o := .bleCommand) (by decide) (by decide)

/-- The peer takes the ACL packet. -/
theorem takeAcl : Yields p sw Peer.takeAcl b (s.packet p .aclData .aclData .aclData)
    (s.takePacket .aclData) :=
  h.bleTable.bind fun _ h₁ =>
    h₁.takePacket .aclData .aclData (o := .aclData) (by decide) (by decide)

/-- The peer may fill a buffer with an event. -/
theorem putEvent {o : Object} (ho : o ∈ Object.buffers) (kind code length : UInt8)
    {data : Memory → List UInt8} (hsize : ∀ m, 19 + (data m).length ≤ o.size)
    (hdata : ∀ m m', AgreeOff (p.LinkByte sw.traces) m m' → data m' = data m) :
    Yields p sw (modifyMemory fun m => Packet.putEvent m (p.address o) kind code length (data m)) b
      () (s.modifyBytes fun m => Packet.putEvent m (p.address o) kind code length (data m)) := by
  have hfull : ∀ m, (16 : Address).toNat + (kind :: code :: length :: data m).length ≤ o.size := by
    intro m
    have := hsize m
    simp only [List.length_cons, UInt64.reduceToNat]
    omega
  refine h.writeObject ho (fun m => agreeOff_write_of_add m (hfull m) o.size_le) fun m m' hm => ?_
  rw [hdata m m' hm]
  exact hm.write _ (Nat.le_trans (Nat.le_trans (Nat.le_add_left _ _) (hfull m)) o.size_le)

/-- **The peer answers a system command.** -/
theorem answerSystemCommand (status : UInt8) :
    Yields p sw (Peer.answerSystemCommand status) b (s.panel.get .systemCommand).hostFlag
      (s.answerSystemCommand p status) := by
  refine (h.bell .systemCommand).bind fun b₁ h₁ => ?_
  rw [Account.answerSystemCommand]
  split
  · next hflag =>
    rw [hflag]
    refine h₁.systemTable.bind fun b₂ h₂ => ?_
    refine (h₂.putEvent (o := .systemCommand) (by decide) _ _ _ (fun m => ?_)
      fun m m' hm => ?_).bind fun b₃ h₃ => ?_
    · rw [List.length_cons, List.length_append, length_read]
      exact (by decide : 23 ≤ Object.systemCommand.size)
    · have hread : m'.read (Packet.serial (p.address .systemCommand) + 1) 2 =
          m.read (Packet.serial (p.address .systemCommand) + 1) 2 := by
        refine hm.read_eq fun k hk => Placement.not_linkByte_of_quiet
          (h.valid.quiet_object (o := .systemCommand) (by decide) ?_)
        rw [Packet.serial, UInt64.add_assoc] at hk
        exact hk.of_add (by decide)
      exact congrArg (fun opcode => 1 :: (opcode ++ [status])) hread
    · exact (h₃.modifyBell .systemCommand _).bind fun b₄ h₄ => h₄.pure _
  · next hflag =>
    rw [Bool.eq_false_of_not_eq_true hflag]
    exact h₁.pure false

/-- The peer writes a command status. -/
theorem writeCommandStatus (status : UInt8) (opcode : UInt16) :
    Yields p sw (Peer.writeCommandStatus status opcode) b ()
      (s.writeCommandStatus p status opcode) := by
  refine h.bleTable.bind fun b₁ h₁ => ?_
  refine h₁.putEvent (o := .commandStatus) (by decide) _ _ _ (fun m => ?_) fun m m' hm => rfl
  rw [List.length_append, LittleEndian.length_encode]
  exact (by decide : 23 ≤ Object.commandStatus.size)

end Board.Shows

end InterCore
