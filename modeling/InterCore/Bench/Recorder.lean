import InterCore.Bench.Action

/-!
# Performing actions under observation

The observer of a bench keeps events, counters and log lines. While it records, an event can set
off a hook: a script that runs in the middle of the operation that told the event.

## Main definitions

* `Recorder`: what the observer keeps.
* `perform`: one action, under a given observer.
* `observer`: the recording observer, which performs the actions of its hooks under itself.
-/

namespace InterCore.Bench

open Board

/-- A script that waits for an event. -/
structure Hook where
  event : String
  script : List Action

/-- What the observer of a bench keeps. -/
structure Recorder where
  watch : Watch := .silent
  /-- Events counted since the boot. -/
  counters : Counters := {}
  /-- Events recorded in the current step. -/
  events : Array Event := #[]
  /-- Lines logged in the current step. -/
  lines : Array String := #[]
  /-- Hooks that wait, the oldest first. -/
  hooks : List Hook := []
  /-- Answers of the hook actions that finished in the current step. -/
  hookReplies : Array Reply := #[]

namespace Recorder

/-- Keep an event. -/
def note (r : Recorder) (e : Event) : Recorder :=
  match r.watch with
  | .silent => r
  | .record => { r with events := r.events.push e, counters := r.counters.record e }
  | .log => { r with lines := r.lines.push e.line, counters := r.counters.record e }

/-- The first hook that waits for an event, and the recorder without it. Only a recording
observer has hooks. -/
def takeHook? (r : Recorder) (e : Event) : Option (List Action × Recorder) :=
  match r.watch with
  | .record =>
    match r.hooks.findIdx? (·.event = e.kind.name) with
    | some i => r.hooks[i]?.map fun h => (h.script, { r with hooks := r.hooks.eraseIdx i })
    | none => none
  | _ => none

/-- A recorder at the start of a step. -/
def startStep (r : Recorder) : Recorder :=
  { r with events := #[], lines := #[], hookReplies := #[] }

end Recorder

/-- Programs on a board under observation of a bench. -/
abbrev BenchM := BoardM Recorder

/-! ### The board of the bench -/

/-- Where the storage of the bench lies. -/
def place : Placement := Placement.standard

/-- A node that no region holds. -/
def strayNode : Address := 0x7F4C20040000

/-- Where the event slots of a boot without a reference table lie. -/
def slotOrigin : Address := 0x7F4C30000000

/-- The number of boxes of the application. -/
def boxCount : Nat := 6

/-- The board before the first boot. -/
def blank : Board Recorder where
  memory := Memory.zero
  panel := Panel.reset
  clockEnables := 0
  host := Host.fresh place {} {}
  peer := default
  boxes := Array.replicate boxCount Box.empty
  sink := {}

/-! ### Actions -/

variable (observer : Observer Recorder)

/-- Boot: drop the hooks, shut down what ran before, reset the doorbells and the counters, and
start the host and the peer over the storage as it is. -/
def performBoot (plan : BootPlan) : BenchM Reply := do
  modifySink fun r => { r with hooks := [] }
  Host.shutdown observer
  modifySink fun r => { r with watch := plan.watch, counters := {} }
  modify fun b =>
    { b with panel := Panel.reset, boxes := Array.replicate boxCount Box.empty, peer := default }
  match plan.slots with
  | some count => Host.bootWithSlots place slotOrigin count plan.switches
  | none =>
    Host.boot plan.storage place.localHead plan.switches
    Peer.attach place.referenceTable
  return .done

/-- Perform a call of the host. -/
def performHost : HostAction → BenchM Reply
  | .receiveInterrupt => do
    Host.receiveInterrupt observer
    return .done
  | .transmitInterrupt => do
    Host.transmitInterrupt observer
    return .done
  | .discardTraces => do
    Host.discardTraces observer
    return .done
  | .fetchEvents e => do
    Host.fetchEvents observer e
    return .done
  | .systemAnswered => do
    Host.systemAnswered observer
    return .done
  | .aclAcknowledged => do
    Host.aclAcknowledged observer
    return .done
  | .releaseAcknowledged => do
    Host.releaseAcknowledged observer
    return .done
  | .flush => do return .number (← Host.flush)
  | .giveBack node => do
    Host.giveBack observer node
    return .done
  | .sendCommandSerial bytes => do return .sent (← Host.sendCommandSerial observer bytes)
  | .sendCommand opcode parameters => do
    return .sent (← Host.sendCommand observer opcode parameters)
  | .sendAclSerial bytes => do return .sent (← Host.sendAclSerial observer bytes)
  | .sendAcl handle data => do return .sent (← Host.sendAcl observer handle data)
  | .sendSystemCommand opcode parameters => do
    return .sent (← Host.sendSystemCommand observer opcode parameters)

/-- Read the packet in a box. -/
def readBox (i : Nat) (f : Memory → Address → Reply) : BenchM Reply := do
  let p ← Host.openBox (.application i)
  return f (← get).memory p

/-- Perform a use of the boxes. -/
def performBox : BoxAction → BenchM Reply
  | .take e i => do return .flag (← Host.takeEvent observer e i)
  | .wrap i node => do
    Host.assignBox observer (.application i) (Box.around node)
    return .done
  | .release i => do
    Host.releaseBox observer (.application i)
    return .done
  | .renew i => do
    Host.assignBox observer (.application i) Box.empty
    return .done
  | .move source target => do
    Host.moveBox observer (.application source) (.application target)
    return .done
  | .moveByTemporary source target => do
    let x ← Host.takeBox (.application source)
    Host.assignBox observer (.application target) x
    return .done
  | .node i => do return .node (← Host.box (.application i)).node
  | .owns i => do return .flag (← Host.box (.application i)).node.isSome
  | .kind i => readBox i fun m p => .number (Packet.kind m p).toNat
  | .eventCode i => readBox i fun m p => .number (Packet.eventCode m p).toNat
  | .eventData i => readBox i fun m p => .bytes (Packet.eventData m p)
  | .packet i => readBox i fun m p => .event (EventView.at m p)

/-- The answer of a peer that may have found a packet. -/
def Reply.ofPacket : Option (List UInt8) → Reply
  | some serial => .region serial
  | none => .done

/-- Perform a move of the peer. -/
def performPeer : PeerAction → BenchM Reply
  | .deliverEvent code data => do return .flag (← Peer.deliverEvent code data)
  | .deliverSystemEvent code data => do return .flag (← Peer.deliverSystemEvent code data)
  | .deliverTrace data => do return .flag (← Peer.deliverTrace data)
  | .reclaim => do return .number (← Peer.reclaim)
  | .takeCommand => do return .ofPacket (← Peer.takeCommand)
  | .takeAcl => do return .ofPacket (← Peer.takeAcl)
  | .answerSystemCommand status => do return .flag (← Peer.answerSystemCommand status)
  | .writeCommandStatus status opcode => do
    Peer.writeCommandStatus status opcode
    return .done

/-- Perform a use of one channel. A number outside the peripheral halts. -/
def performBell (channel : UInt8) (action : BellAction) : BenchM Reply := do
  let some c := Channel.ofNumber? channel | throw .unknownChannel
  let change (f : Bell → Bell) : BenchM Reply := do
    modifyBell c f
    return .done
  match action with
  | .ring => change Bell.ring
  | .clear => change Bell.clear
  | .enableRx on => change (·.enableRx on)
  | .enableTx on => change (·.enableTx on)
  | .acknowledge => change Bell.acknowledge
  | .signal => change Bell.signal
  | .isBusy => return .flag (← bell c).hostFlag
  | .rxPending => return .flag (← bell c).rxPending
  | .txPending => return .flag (← bell c).txPending
  | .rings => return .number (← bell c).rings.toNat

/-- The address that a raw link stands for. -/
def LinkTarget.address : LinkTarget → BenchM Address
  | .null => return Address.null
  | .node i => Board.address i
  | .stray => return strayNode
  | .inside i offset => return (← Board.address i) + offset

/-- Store a raw link, if one is given. -/
def pokeLink (store : Memory → Address → Memory) : Option LinkTarget → BenchM Unit
  | none => pure ()
  | some target => do
    let q ← target.address
    modifyMemory fun m => store m q

/-- Perform a raw write. -/
def performRaw : RawAction → BenchM Reply
  | .put node kind code length data => do
    let p ← Board.address node
    modifyMemory fun m => Packet.putEvent m p kind code length (data.take Packet.eventPayload)
    return .done
  | .poke node next prev => do
    let p ← Board.address node
    pokeLink (fun m q => m.setNext p q) next
    pokeLink (fun m q => m.setPrev p q) prev
    return .done
  | .scribble value => do
    let place := (← get).host.place
    let objects := [Object.bleCommand, .systemCommand, .aclData, .commandStatus]
    modifyMemory fun m =>
      let m := objects.foldl (fun m o =>
        m.fill (Packet.serial (place.address o)) (o.size - Packet.headerSize) value) m
      m.fill (place.address (.table .deviceInfo)) Format.deviceInfo.size value
    return .done

/-- What a pointer of a table points at. -/
def Published.ofPointer (place : Placement) (p : Address) : Published :=
  if p = Address.null then .nothing
  else match place.objectAt? p with
    | some o => .object o
    | none => .elsewhere

/-- The tables as they stand in memory. -/
def PublishedTables.load (place : Placement) (m : Memory) : PublishedTables :=
  let pointer := Published.ofPointer place
  let table (t : Table) := place.address (.table t)
  let buffers := BufferTable.load m (table .buffers)
  { reference := (ReferenceTable.load m place.referenceTable).toList.map pointer
    ble := (BleTable.load m (table .ble)).toList.map pointer
    system := (SystemTable.load m (table .system)).toList.map pointer
    buffers :=
      [pointer buffers.spareBle, pointer buffers.spareSystem, pointer buffers.pool,
        .size buffers.poolSize.toNat, pointer buffers.freeQueue, pointer buffers.tracesPool,
        .size buffers.tracesPoolSize.toNat]
    traces := [pointer (TracesTable.load m (table .traces)).queue] }

/-- Answer a question. -/
def performQuery (query : Query) : BenchM Reply := do
  let b ← get
  let serialOf (o : Object) (f : Format) : Reply :=
    .region (b.memory.read (Packet.serial (b.host.place.address o)) f.size)
  match query with
  | .commandBuffer => return serialOf .bleCommand .command
  | .aclBuffer => return serialOf .aclData .aclData
  | .systemBuffer => return serialOf .systemCommand .command
  | .response => return .event (EventView.at b.memory (b.host.place.address .systemCommand))
  | .commandStatus =>
    let p := Packet.serial (b.host.place.address .commandStatus) + 3
    return .fields (Format.commandStatus.decode (b.memory.read p Format.commandStatus.size))
  | .settings => return .settings b.host.switches
  | .queueIndex q => return .number (b.host.firstQueue + q).toNat
  | .queues =>
    return .numbers [b.host.freeQueue.toNat, b.host.localQueue.toNat, b.host.arena.size.toNat]
  | .deviceInfo =>
    let p := b.host.place.address (.table .deviceInfo)
    return .fields (Format.deviceInfo.decode (b.memory.read p Format.deviceInfo.size))
  | .counters => return .counters b.sink.counters
  | .tables => return .tables (PublishedTables.load b.host.place b.memory)

/-- Perform one action. A hook is only put on its list. -/
def perform : Action → BenchM Reply
  | .boot plan => performBoot observer plan
  | .host action => performHost observer action
  | .box action => performBox observer action
  | .peer action => performPeer action
  | .bell channel action => performBell channel action
  | .raw action => performRaw action
  | .query query => performQuery query
  | .chain step => extract fun a m => step.perform a m
  | .hook event script => do
    modifySink fun r => { r with hooks := r.hooks ++ [{ event, script }] }
    return .done

/-- Perform the actions of a hook and keep their answers. -/
def performHook (script : List Action) : BenchM Unit :=
  script.forM fun action => do
    let reply ← perform observer action
    modifySink fun r => { r with hookReplies := r.hookReplies.push reply }

/-- The observer of a bench, for hooks within hooks up to a depth. It keeps the event; then the
first hook that waits for it is removed and runs, observed in the same way. -/
def recording : Nat → Observer Recorder
  | 0, _ => throw .endless
  | depth + 1, e => do
    modifySink (·.note e)
    match (← get).sink.takeHook? e with
    | none => pure ()
    | some (script, r) =>
      modifySink fun _ => r
      performHook (recording depth) script

end InterCore.Bench
