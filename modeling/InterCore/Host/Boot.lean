import InterCore.Host.Inbox

/-!
# Boot and shutdown

A boot clears the shared storage, fills the tables through which the peer finds everything, names
the nodes, makes every queue that it publishes an empty chain, and lets the channels interrupt the
host that its switches ask for. The doorbells and everything outside the storage are taken as they
are.

## Main definitions

* `Host.boot`: boot over a storage that may lack a part.
* `Host.bootWithSlots`: boot over a number of event slots of its own, without a reference table.
* `Host.shutdown`: give back every buffer that a box still owns.
-/

namespace InterCore

/-- The placement of a complete storage. -/
def Storage.placement? (s : Storage) (localHead : Address) : Option Placement := do
  return { referenceTable := ← s.referenceTable, control := ← s.control, buffers := ← s.buffers,
           localHead }

namespace Host

open Board

variable {σ : Type}

/-- A run of nodes to register. -/
structure NodeRun where
  base : Address
  stride : Nat
  count : UInt64
  deriving DecidableEq, Repr

/-- The heads of the shared queues. -/
def queueHeads (place : Placement) : NodeRun :=
  ⟨place.address (.queue .ble), 16, UInt64.ofNat queueCount⟩

/-- The event slots of the peer. -/
def eventPool (place : Placement) : NodeRun :=
  ⟨place.address .pool, Packet.slotSize, UInt64.ofNat poolSlots⟩

/-- The spare event slots. -/
def spareEvents (place : Placement) : NodeRun :=
  ⟨place.address (.spare .system), Packet.slotSize, UInt64.ofNat spareSlots⟩

/-- The head of the local queue. -/
def localHead (place : Placement) : NodeRun :=
  ⟨place.localHead, 16, 1⟩

/-- Register runs of nodes one after the other. -/
def registerAll (a : Arena) : List NodeRun → Except Halt Arena
  | [] => pure a
  | run :: runs => do
    let (_, a) ← a.register run.base (UInt64.ofNat run.stride) run.count
    registerAll a runs

/-- A host whose nodes are registered and whose queues are not yet made. The last node of the
arena is the head of the local queue. -/
def fresh (place : Placement) (arena : Arena) (switches : Switches) : Host where
  place := place
  arena := arena
  switches := switches
  firstQueue := 0
  freeQueue := Queue.free.number
  localQueue := arena.size - 1
  releasePending := false
  ble := { queue := Queue.ble.number, inbox := Ring.empty Box.empty }
  system := { queue := Queue.system.number, inbox := Ring.empty Box.empty }
  aclInFlight := false
  systemBusy := false
  responseReady := false

/-- Make a head an empty chain and return its address. -/
def makeQueue (head : NodeIndex) : BoardM σ Address := do
  splice fun a m => Chain.init a m head
  address head

/-- Publish the event buffers. -/
def startRelease : BoardM σ Unit := do
  let host := (← get).host
  let freeQueue ← makeQueue host.freeQueue
  let _ ← makeQueue host.localQueue
  let place := host.place
  let table : BufferTable :=
    { spareBle := place.address (.spare .ble)
      spareSystem := place.address (.spare .system)
      pool := place.address .pool
      poolSize := UInt32.ofNat InterCore.poolSize
      freeQueue
      tracesPool := Address.null
      tracesPoolSize := 0 }
  modifyMemory fun m => table.store m (place.address (.table .buffers))

/-- Publish the BLE endpoint and let its events interrupt the host. -/
def startBle : BoardM σ Unit := do
  let host := (← get).host
  let eventQueue ← makeQueue host.ble.queue
  let place := host.place
  let table : BleTable :=
    { command := place.address .bleCommand
      commandStatus := place.address .commandStatus
      eventQueue
      aclData := place.address .aclData }
  modifyMemory fun m => table.store m (place.address (.table .ble))
  modifyBell .bleEvent (·.enableRx true)

/-- Publish the system endpoint. -/
def startSystem : BoardM σ Unit := do
  let host := (← get).host
  let eventQueue ← makeQueue host.system.queue
  let place := host.place
  let table : SystemTable := { command := place.address .systemCommand, eventQueue }
  modifyMemory fun m => table.store m (place.address (.table .system))

/-- Publish the traces queue and let traces interrupt the host. -/
def startTraces : BoardM σ Unit := do
  let host := (← get).host
  let queue ← makeQueue (host.queue .traces)
  let table : TracesTable := { queue }
  modifyMemory fun m => table.store m (host.place.address (.table .traces))
  modifyBell .traces (·.enableRx true)

/-- Start a host over registered nodes. -/
def start (place : Placement) (runs : List NodeRun) (switches : Switches) : BoardM σ Unit := do
  let arena ← ofExcept (registerAll {} runs)
  modifyHost fun _ => fresh place arena switches
  startRelease
  startBle
  startSystem

/-- Boot over a storage. -/
def boot (storage : Storage) (localNode : Address) (switches : Switches) : BoardM σ Unit := do
  match storage.placement? localNode with
  | none => throw .incompleteStorage
  | some place =>
    modifyMemory fun m => place.references.store (place.clear m) place.referenceTable
    modify fun b => { b with clockEnables := b.clockEnables + 1 }
    start place [queueHeads place, eventPool place, spareEvents place, localHead place] switches
    modifyBell .systemEvent (·.enableRx switches.systemEvents)
    if switches.traces then
      startTraces

/-- Boot over `count` zeroed event slots from `slots` on. The reference table stays empty, and no
system event and no trace interrupts the host. -/
def bootWithSlots (place : Placement) (slots : Address) (count : UInt64) (switches : Switches) :
    BoardM σ Unit := do
  modifyMemory fun m => (place.clear m).clear slots (count.toNat * Packet.slotSize)
  start place [queueHeads place, ⟨slots, Packet.slotSize, count⟩, localHead place] switches

/-- Give back every buffer that a box still owns: first the boxes of the application in order,
then the slots of the system inbox and of the BLE inbox, each from the last slot to the first. -/
def shutdown (observer : Observer σ) : BoardM σ Unit := do
  let boxes := List.range (← get).boxes.size
  boxes.forM fun i => releaseBox observer (.application i)
  let counters := (List.range 32).reverse
  [Endpoint.system, Endpoint.ble].forM fun e =>
    counters.forM fun c => releaseBox observer (.inbox e (UInt64.ofNat c))

end Host

end InterCore
