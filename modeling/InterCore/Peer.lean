import InterCore.Board

/-!
# The peer core

The other core finds everything through the reference table, follows the links of the shared
queues as raw addresses, and talks back through the doorbells only. It keeps a record of its own of
the event slots it may fill.

## Main definitions

* `Peer.linkBack`, `Peer.unlinkFront`: its splices on a queue head at an address.
* `Peer.deliver`: fill a slot, queue it and signal the host.
* `Peer.reclaim`: take back what the host has given back.
* `Peer.takeCommand`, `Peer.takeAcl`, `Peer.answerSystemCommand`: consume what the host has sent.
-/

namespace InterCore.Peer

open Board

/-! ### Splices -/

/-- Append a node to the chain of a head. -/
def linkBack (m : Memory) (head node : Address) : Memory :=
  let m := m.setNext node head
  let m := m.setPrev node (m.prev head)
  let m := m.setNext (m.prev head) node
  m.setPrev head node

/-- Take the first node out of the chain of a head, if there is one. -/
def unlinkFront (m : Memory) (head : Address) : Option Address × Memory :=
  let node := m.next head
  if node = head then (none, m)
  else
    let m := m.setNext head (m.next node)
    (some node, m.setPrev (m.next node) head)

/-! ### Start -/

variable {σ : Type}

/-- Find the event pool and own all its slots. The last slot is filled first. -/
def attach (referenceTable : Address) : BoardM σ Unit := do
  let m := (← get).memory
  let table := BufferTable.load m (ReferenceTable.load m referenceTable).buffers
  let slots := table.poolSize.toNat / Packet.slotSize
  let slot (i : Nat) : Address := table.pool + UInt64.ofNat (i * Packet.slotSize)
  modifyPeer fun _ =>
    { referenceTable, free := (List.range slots).reverse.map slot, poolSlots := slots }

/-- The reference table. -/
def references : BoardM σ ReferenceTable := do
  let b ← get
  return ReferenceTable.load b.memory b.peer.referenceTable

/-- The table of the BLE endpoint. -/
def bleTable : BoardM σ BleTable := do
  let table := (← references).ble
  return BleTable.load (← get).memory table

/-- The table of the system endpoint. -/
def systemTable : BoardM σ SystemTable := do
  let table := (← references).system
  return SystemTable.load (← get).memory table

/-- The number of slots that the host has. More slots than there were at boot count below zero,
which wraps at 64 bits. -/
def outstanding (p : Peer) : UInt64 :=
  UInt64.ofNat p.poolSlots - UInt64.ofNat p.free.length

/-! ### Events -/

/-- Fill a slot, queue it and signal the host. Without a queue, without a free slot, or with a
payload that is too long, nothing happens. -/
def deliver (queue : Address) (kind : PacketKind) (code : UInt8) (data : List UInt8)
    (channel : Channel) : BoardM σ Bool := do
  match (← get).peer.free with
  | [] => return false
  | slot :: rest =>
    if queue = Address.null ∨ Packet.eventPayload < data.length then
      return false
    else
      modifyPeer fun p => { p with free := rest }
      modifyMemory fun m =>
        let m := Packet.putEvent m slot kind.code code (UInt8.ofNat data.length) data
        linkBack m queue slot
      modifyBell channel Bell.signal
      return true

/-- Deliver a BLE event. -/
def deliverEvent (code : UInt8) (data : List UInt8) : BoardM σ Bool := do
  deliver (← bleTable).eventQueue .bleEvent code data .bleEvent

/-- Deliver a system event. -/
def deliverSystemEvent (code : UInt8) (data : List UInt8) : BoardM σ Bool := do
  deliver (← systemTable).eventQueue .systemEvent code data .systemEvent

/-- Deliver a trace record. Without traces there is no queue to deliver to. -/
def deliverTrace (data : List UInt8) : BoardM σ Bool := do
  let table := (← references).traces
  let queue := (TracesTable.load (← get).memory table).queue
  deliver queue .wirelessTrace EventCode.vendorSpecific.code data .traces

/-! ### Buffers that come back -/

/-- Own the first buffer of the queue of given-back buffers, if there is one. -/
def reclaimOne (queue : Address) : BoardM σ Bool := do
  match unlinkFront (← get).memory queue with
  | (none, _) => return false
  | (some node, m) =>
    modifyMemory fun _ => m
    modifyPeer fun p => { p with free := node :: p.free }
    return true

/-- If the release doorbell is set, own every buffer that was given back and acknowledge. Returns
their number. -/
def reclaim : BoardM σ Nat := do
  if (← bell .release).hostFlag then
    let table := (← references).buffers
    let queue := (BufferTable.load (← get).memory table).freeQueue
    let taken ← drain (reclaimOne queue)
    modifyBell .release Bell.acknowledge
    return taken
  else
    return 0

/-! ### Commands and data -/

/-- If the doorbell of a channel is set, copy the serial part of the packet at `p` and
acknowledge. -/
def takePacket (channel : Channel) (format : Format) (p : Address) :
    BoardM σ (Option (List UInt8)) := do
  if (← bell channel).hostFlag then
    let bytes := (← get).memory.read (Packet.serial p) format.size
    modifyBell channel Bell.acknowledge
    return some bytes
  else
    return none

/-- Consume the BLE command, if one is announced. -/
def takeCommand : BoardM σ (Option (List UInt8)) := do
  takePacket .bleCommand .command (← bleTable).command

/-- Consume the ACL packet, if one is announced. -/
def takeAcl : BoardM σ (Option (List UInt8)) := do
  takePacket .aclData .aclData (← bleTable).aclData

/-- If a system command is announced, answer it in its own buffer with a command complete event
that carries its opcode and a status, and acknowledge. -/
def answerSystemCommand (status : UInt8) : BoardM σ Bool := do
  if (← bell .systemCommand).hostFlag then
    let p := (← systemTable).command
    modifyMemory fun m =>
      let opcode := m.read (Packet.serial p + 1) 2
      Packet.putEvent m p PacketKind.systemResponse.code EventCode.commandComplete.code 4
        (1 :: (opcode ++ [status]))
    modifyBell .systemCommand Bell.acknowledge
    return true
  else
    return false

/-- Write a command status event into the buffer kept for it. -/
def writeCommandStatus (status : UInt8) (opcode : UInt16) : BoardM σ Unit := do
  let p := (← bleTable).commandStatus
  modifyMemory fun m =>
    Packet.putEvent m p PacketKind.bleEvent.code EventCode.commandStatus.code 4
      ([status, 1] ++ LittleEndian.encode 2 opcode.toNat)

end InterCore.Peer
