import InterCore.Arena
import InterCore.Packet

/-!
# Shared storage

The objects that both cores reach, and the tables through which the peer finds them. The storage
has three parts: the reference table, which points at the other tables; the control area with
those tables and the heads of the shared queues; and the buffer area with the packets. Objects of
an area follow one another, each rounded up to four bytes.

## Main definitions

* `Object`: everything that lies in the control area or the buffer area.
* `Placement.address`: where an object lies.
* `ReferenceTable`, `BleTable`, `SystemTable`, `BufferTable`, `TracesTable`: the published tables.

## Main results

* `Object.offset_eq`: an object lies behind the objects before it in its area.
-/

namespace InterCore

/-- The second-level tables. -/
inductive Table where
  | deviceInfo
  | ble
  | thread
  | lldTests
  | bleLld
  | system
  | buffers
  | traces
  | mac802154
  | zigbee
  deriving DecidableEq, Repr

/-- The shared queues. -/
inductive Queue where
  /-- BLE events, peer to host. -/
  | ble
  /-- System events, peer to host. -/
  | system
  /-- Event buffers given back, host to peer. -/
  | free
  /-- Trace records, peer to host. -/
  | traces
  deriving DecidableEq, Repr

/-- The position of a queue among the queue heads. -/
def Queue.number : Queue → UInt16
  | ble => 0
  | system => 1
  | free => 2
  | traces => 3

/-- The number of shared queues. -/
def queueCount : Nat := 4

/-- The number of event slots that the peer may use. -/
def poolSlots : Nat := 5

/-- The number of spare event slots. -/
def spareSlots : Nat := 2

/-- The event pool in bytes. -/
def poolSize : Nat := poolSlots * Packet.slotSize

/-- The parts of the storage that hold objects. -/
inductive Area where
  | control
  | buffers
  deriving DecidableEq, Repr

/-- Everything that lies in the shared storage behind the reference table. -/
inductive Object where
  | table (t : Table)
  | queue (q : Queue)
  /-- The event slots of the peer. -/
  | pool
  /-- The spare event slot of an endpoint. -/
  | spare (e : Endpoint)
  | systemCommand
  | bleCommand
  | commandStatus
  | aclData
  deriving DecidableEq, Repr

namespace Object

/-- The objects of an area in the order in which they lie there. -/
def ofArea : Area → List Object
  | .control =>
    [table .deviceInfo, table .ble, table .thread, table .lldTests, table .bleLld, table .system,
      table .buffers, table .traces, table .mac802154, table .zigbee,
      queue .ble, queue .system, queue .free, queue .traces]
  | .buffers =>
    [pool, spare .system, spare .ble, systemCommand, bleCommand, commandStatus, aclData]

/-- Every object. -/
def all : List Object :=
  ofArea .control ++ ofArea .buffers

/-- The number of bytes of an object. -/
def size : Object → Nat
  | table .deviceInfo => Format.deviceInfo.size
  | table .ble => 4 * 8
  | table .thread => 4 * 8
  | table .lldTests => 2 * 8
  | table .bleLld => 2 * 8
  | table .system => 2 * 8
  | table .buffers => 5 * 8 + 2 * 4
  | table .traces => 8
  | table .mac802154 => 3 * 8
  | table .zigbee => 3 * 8
  | queue _ => 16
  | pool => poolSize
  | spare _ => Packet.slotSize
  | systemCommand => Packet.commandSize
  | bleCommand => Packet.commandSize
  | commandStatus => Packet.commandStatusSize
  | aclData => Packet.aclSize

/-- The area that holds an object. -/
def area : Object → Area
  | table _ => .control
  | queue _ => .control
  | _ => .buffers

/-- Where an object lies in its area. -/
def offset : Object → UInt64
  | table .deviceInfo => 0
  | table .ble => 32
  | table .thread => 64
  | table .lldTests => 96
  | table .bleLld => 112
  | table .system => 128
  | table .buffers => 144
  | table .traces => 192
  | table .mac802154 => 200
  | table .zigbee => 224
  | queue .ble => 248
  | queue .system => 264
  | queue .free => 280
  | queue .traces => 296
  | pool => 0
  | spare .system => 1380
  | spare .ble => 1656
  | systemCommand => 1932
  | bleCommand => 2208
  | commandStatus => 2484
  | aclData => 2508

/-- The bytes that an object and the gap after it take. -/
def span (o : Object) : Nat :=
  (o.size + 3) / 4 * 4

/-- The bytes that objects take one after the other. -/
def spans (objects : List Object) : Nat :=
  objects.foldr (fun o n => o.span + n) 0

/-- An object lies behind the objects before it in its area. -/
theorem offset_eq (o : Object) :
    o.offset.toNat = spans ((ofArea o.area).takeWhile (· ≠ o)) := by
  cases o with
  | table t => cases t <;> decide
  | queue q => cases q <;> decide
  | spare e => cases e <;> decide
  | _ => decide

/-- The name of an object in answers. -/
def name : Object → String
  | table .deviceInfo => "device_info"
  | table .ble => "ble"
  | table .thread => "thread"
  | table .lldTests => "lld_tests"
  | table .bleLld => "ble_lld"
  | table .system => "sys"
  | table .buffers => "mem_manager"
  | table .traces => "traces"
  | table .mac802154 => "mac_802_15_4"
  | table .zigbee => "zigbee"
  | queue .ble => "queue_ble"
  | queue .system => "queue_sys"
  | queue .free => "queue_free"
  | queue .traces => "queue_traces"
  | pool => "evt_pool"
  | spare .system => "spare_0"
  | spare .ble => "spare_1"
  | systemCommand => "sys_cmd"
  | bleCommand => "ble_cmd"
  | commandStatus => "cs_buffer"
  | aclData => "acl_data"

end Object

/-- The size of an area in bytes. -/
def Area.size (a : Area) : Nat :=
  Object.spans (Object.ofArea a)

/-- The size of the reference table: ten pointers. -/
def referenceTableSize : Nat := 10 * 8

/-- The parts of the storage as they are offered at boot; one may be missing. -/
structure Storage where
  referenceTable : Option Address
  control : Option Address
  buffers : Option Address
  deriving DecidableEq, Repr

/-- Where the parts of a complete storage lie, and the head of the local queue, which the host
keeps to itself. -/
structure Placement where
  referenceTable : Address
  control : Address
  buffers : Address
  localHead : Address
  deriving DecidableEq, Repr, Inhabited

namespace Placement

/-- Where an object lies. -/
def address (p : Placement) (o : Object) : Address :=
  match o.area with
  | .control => p.control + o.offset
  | .buffers => p.buffers + o.offset

/-- The object that starts at an address. -/
def objectAt? (p : Placement) (a : Address) : Option Object :=
  Object.all.find? fun o => p.address o = a

/-- A placement whose parts lie far apart. -/
def standard : Placement where
  referenceTable := 0x7F4C20000000
  control := 0x7F4C20010000
  buffers := 0x7F4C20020000
  localHead := 0x7F4C20030000

/-- The storage with all its parts, as it is offered at boot. -/
def storage (p : Placement) : Storage where
  referenceTable := some p.referenceTable
  control := some p.control
  buffers := some p.buffers

/-- Set the whole shared storage to zero. -/
def clear (p : Placement) (m : Memory) : Memory :=
  ((m.clear p.referenceTable referenceTableSize).clear p.control Area.control.size).clear
    p.buffers Area.buffers.size

end Placement

/-! ### The published tables -/

/-- The bytes of a pointer. -/
def pointerBytes (p : Address) : List UInt8 :=
  LittleEndian.encode 8 p.toNat

/-- The reference table: where each table lies. -/
structure ReferenceTable where
  deviceInfo : Address
  ble : Address
  thread : Address
  system : Address
  buffers : Address
  traces : Address
  mac802154 : Address
  zigbee : Address
  lldTests : Address
  bleLld : Address
  deriving DecidableEq, Repr

namespace ReferenceTable

/-- The pointers of the table in order. -/
def toList (t : ReferenceTable) : List Address :=
  [t.deviceInfo, t.ble, t.thread, t.system, t.buffers, t.traces, t.mac802154, t.zigbee,
    t.lldTests, t.bleLld]

/-- Write the table. -/
def store (t : ReferenceTable) (m : Memory) (a : Address) : Memory :=
  m.write a (t.toList.flatMap pointerBytes)

/-- Read the table. -/
def load (m : Memory) (a : Address) : ReferenceTable where
  deviceInfo := m.pointer a
  ble := m.pointer (a + 8)
  thread := m.pointer (a + 16)
  system := m.pointer (a + 24)
  buffers := m.pointer (a + 32)
  traces := m.pointer (a + 40)
  mac802154 := m.pointer (a + 48)
  zigbee := m.pointer (a + 56)
  lldTests := m.pointer (a + 64)
  bleLld := m.pointer (a + 72)

end ReferenceTable

/-- The table of the BLE endpoint. -/
structure BleTable where
  command : Address
  commandStatus : Address
  eventQueue : Address
  aclData : Address
  deriving DecidableEq, Repr

namespace BleTable

/-- The pointers of the table in order. -/
def toList (t : BleTable) : List Address :=
  [t.command, t.commandStatus, t.eventQueue, t.aclData]

/-- Write the table. -/
def store (t : BleTable) (m : Memory) (a : Address) : Memory :=
  m.write a (t.toList.flatMap pointerBytes)

/-- Read the table. -/
def load (m : Memory) (a : Address) : BleTable where
  command := m.pointer a
  commandStatus := m.pointer (a + 8)
  eventQueue := m.pointer (a + 16)
  aclData := m.pointer (a + 24)

end BleTable

/-- The table of the system endpoint. -/
structure SystemTable where
  command : Address
  eventQueue : Address
  deriving DecidableEq, Repr

namespace SystemTable

/-- The pointers of the table in order. -/
def toList (t : SystemTable) : List Address :=
  [t.command, t.eventQueue]

/-- Write the table. -/
def store (t : SystemTable) (m : Memory) (a : Address) : Memory :=
  m.write a (t.toList.flatMap pointerBytes)

/-- Read the table. -/
def load (m : Memory) (a : Address) : SystemTable where
  command := m.pointer a
  eventQueue := m.pointer (a + 8)

end SystemTable

/-- The table of the event buffers: the spare slots, the pool, and the queue of buffers given
back. Traces have no pool of their own. -/
structure BufferTable where
  spareBle : Address
  spareSystem : Address
  pool : Address
  poolSize : UInt32
  freeQueue : Address
  tracesPool : Address
  tracesPoolSize : UInt32
  deriving DecidableEq, Repr

namespace BufferTable

/-- Write the table. -/
def store (t : BufferTable) (m : Memory) (a : Address) : Memory :=
  m.write a <|
    [t.spareBle, t.spareSystem, t.pool].flatMap pointerBytes ++
      LittleEndian.encode 4 t.poolSize.toNat ++
      [t.freeQueue, t.tracesPool].flatMap pointerBytes ++
      LittleEndian.encode 4 t.tracesPoolSize.toNat

/-- Read the table. -/
def load (m : Memory) (a : Address) : BufferTable where
  spareBle := m.pointer a
  spareSystem := m.pointer (a + 8)
  pool := m.pointer (a + 16)
  poolSize := UInt32.ofNat (m.number (a + 24) 4)
  freeQueue := m.pointer (a + 28)
  tracesPool := m.pointer (a + 36)
  tracesPoolSize := UInt32.ofNat (m.number (a + 44) 4)

end BufferTable

/-- The table of the traces. -/
structure TracesTable where
  queue : Address
  deriving DecidableEq, Repr

namespace TracesTable

/-- Write the table. -/
def store (t : TracesTable) (m : Memory) (a : Address) : Memory :=
  m.write a (pointerBytes t.queue)

/-- Read the table. -/
def load (m : Memory) (a : Address) : TracesTable where
  queue := m.pointer a

end TracesTable

/-- The reference table of a storage. -/
def Placement.references (p : Placement) : ReferenceTable where
  deviceInfo := p.address (.table .deviceInfo)
  ble := p.address (.table .ble)
  thread := p.address (.table .thread)
  system := p.address (.table .system)
  buffers := p.address (.table .buffers)
  traces := p.address (.table .traces)
  mac802154 := p.address (.table .mac802154)
  zigbee := p.address (.table .zigbee)
  lldTests := p.address (.table .lldTests)
  bleLld := p.address (.table .bleLld)

end InterCore
