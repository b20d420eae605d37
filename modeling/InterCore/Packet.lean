import InterCore.Memory

/-!
# Packets

The packed byte layouts that both cores agree on. Every packet starts with the two links of a
chain node, so that it can be queued where it lies; the serial part follows, and its first byte is
the kind of the packet. Numbers are little endian.

## Main definitions

* `PacketKind`: the kinds of packets with their tags.
* `Format.decode`: the fields of a packed record.
* `EventView`: an event packet as it lies in memory.
-/

namespace InterCore

/-- The kind of a packet, told by the first byte of its serial part. -/
inductive PacketKind where
  | bleCommand
  | aclData
  | bleEvent
  | threadCommand
  | threadResponse
  | cliCommand
  | threadNotification
  | threadAck
  | cliNotification
  | cliAck
  | systemCommand
  | systemResponse
  | systemEvent
  | cliResponse
  | radioCommand
  | localCommand
  | localResponse
  | applicationTrace
  | wirelessTrace
  deriving DecidableEq, Repr

namespace PacketKind

/-- Every kind, by increasing tag. -/
def all : List PacketKind :=
  [bleCommand, aclData, bleEvent, threadCommand, threadResponse, cliCommand, threadNotification,
    threadAck, cliNotification, cliAck, systemCommand, systemResponse, systemEvent, cliResponse,
    radioCommand, localCommand, localResponse, applicationTrace, wirelessTrace]

/-- The tag of a kind. -/
def code : PacketKind → UInt8
  | bleCommand => 0x01
  | aclData => 0x02
  | bleEvent => 0x04
  | threadCommand => 0x08
  | threadResponse => 0x09
  | cliCommand => 0x0A
  | threadNotification => 0x0C
  | threadAck => 0x0D
  | cliNotification => 0x0E
  | cliAck => 0x0F
  | systemCommand => 0x10
  | systemResponse => 0x11
  | systemEvent => 0x12
  | cliResponse => 0x15
  | radioCommand => 0x16
  | localCommand => 0x20
  | localResponse => 0x21
  | applicationTrace => 0x40
  | wirelessTrace => 0x41

end PacketKind

/-- Event codes with a meaning of their own. -/
inductive EventCode where
  | commandComplete
  | commandStatus
  | vendorSpecific
  deriving DecidableEq, Repr

namespace EventCode

/-- The code as it stands in the packet. -/
def code : EventCode → UInt8
  | commandComplete => 0x0E
  | commandStatus => 0x0F
  | vendorSpecific => 0xFF

/-- Every named event code. -/
def all : List EventCode :=
  [commandComplete, commandStatus, vendorSpecific]

end EventCode

/-! ### Packed records -/

/-- A field of a packed record. -/
inductive Field where
  /-- A number of so many bytes. -/
  | number (width : Nat)
  /-- A block of so many bytes. -/
  | block (length : Nat)
  deriving DecidableEq, Repr

/-- The number of bytes of a field. -/
def Field.size : Field → Nat
  | number width => width
  | block length => length

/-- What a field holds. -/
inductive Field.Content where
  | number (n : Nat)
  | block (bytes : List UInt8)
  deriving DecidableEq, Repr

/-- Read one field from the start of a run of bytes. -/
def Field.decode (bytes : List UInt8) : Field → Field.Content
  | .number width => .number (LittleEndian.decode (bytes.take width))
  | .block length => .block (bytes.take length)

/-- A packed record: its fields without gaps. -/
structure Format where
  fields : List Field
  deriving DecidableEq, Repr

namespace Format

/-- The number of bytes of a record. -/
def size (f : Format) : Nat :=
  f.fields.foldr (fun field n => field.size + n) 0

/-- Read fields one after the other. -/
def decodeFields : List Field → List UInt8 → List Field.Content
  | [], _ => []
  | f :: fs, bytes => f.decode bytes :: decodeFields fs (bytes.drop f.size)

/-- The fields of a record laid over bytes. Missing bytes are zero, further bytes are ignored. -/
def decode (f : Format) (bytes : List UInt8) : List Field.Content :=
  decodeFields f.fields (bytes ++ List.replicate f.size 0)

/-- The body of a command status event: status, credits, opcode. -/
def commandStatus : Format := ⟨[.number 1, .number 1, .number 2]⟩

/-- The body of a command complete event: credits, opcode, first byte of the payload. -/
def commandComplete : Format := ⟨[.number 1, .number 2, .number 1]⟩

/-- The body of an asynchronous event: code, first byte of the payload. -/
def asynchronous : Format := ⟨[.number 2, .number 1]⟩

/-- A command: kind, opcode, payload length, payload. -/
def command : Format := ⟨[.number 1, .number 2, .number 1, .block 255]⟩

/-- ACL data: kind, connection handle, data length, data. -/
def aclData : Format := ⟨[.number 1, .number 2, .number 2, .block 251]⟩

/-- An event: kind, event code, payload length, payload. -/
def event : Format := ⟨[.number 1, .number 1, .number 1, .block 255]⟩

/-- The device information that the peer publishes: eight 32-bit words. -/
def deviceInfo : Format := ⟨List.replicate 8 (.number 4)⟩

end Format

/-! ### Sizes -/

namespace Packet

/-- The next multiple of `align`, in 64-bit arithmetic. -/
def roundUp (x align : UInt64) : UInt64 :=
  (x + align - 1) / align * align

/-- Bytes before the serial part: the two links. -/
def headerSize : Nat := 16

/-- The largest payload of a command. -/
def commandPayload : Nat := 255

/-- The largest payload of an event. -/
def eventPayload : Nat := 255

/-- The largest payload of an ACL packet. -/
def aclPayload : Nat := 251

/-- A whole command packet. -/
def commandSize : Nat := headerSize + Format.command.size

/-- A whole ACL packet. -/
def aclSize : Nat := headerSize + Format.aclData.size

/-- A whole event packet. -/
def eventSize : Nat := headerSize + Format.event.size

/-- A slot of the event pool: an event packet, rounded up to the alignment. -/
def slotSize : Nat := (roundUp (UInt64.ofNat eventSize) 4).toNat

/-- The buffer of command status events: their header and their body. -/
def commandStatusSize : Nat := headerSize + 3 + Format.commandStatus.size

/-- The bytes of a command after its kind. -/
def commandCapacity : Nat := Format.command.size - 1

/-- The bytes of an ACL packet after its kind. -/
def aclCapacity : Nat := Format.aclData.size - 1

example : commandSize = 275 ∧ aclSize = 272 ∧ eventSize = 274 ∧ slotSize = 276 ∧
    commandStatusSize = 23 ∧ commandCapacity = 258 ∧ aclCapacity = 255 := by decide

/-! ### Fields of packets in memory -/

/-- Where the serial part of a packet starts. -/
def serial (p : Address) : Address := p + 16

/-- The kind of the packet at an address. -/
def kind (m : Memory) (p : Address) : UInt8 :=
  m.get (serial p)

/-- The event code of the event packet at an address. -/
def eventCode (m : Memory) (p : Address) : UInt8 :=
  m.get (serial p + 1)

/-- The payload length of the event packet at an address. -/
def eventLength (m : Memory) (p : Address) : UInt8 :=
  m.get (serial p + 2)

/-- The payload of the event packet at an address, as long as the packet says. -/
def eventData (m : Memory) (p : Address) : List UInt8 :=
  m.read (serial p + 3) (eventLength m p).toNat

/-- The event packet at an address gets this kind, event code, payload length and payload. The
bytes after the payload keep what they held. -/
def putEvent (m : Memory) (p : Address) (kind code length : UInt8) (data : List UInt8) : Memory :=
  m.write (serial p) (kind :: code :: length :: data)

end Packet

/-- An event packet as it lies in memory, stale bytes after the payload included. -/
structure EventView where
  kind : UInt8
  code : UInt8
  length : UInt8
  /-- The whole serial part. -/
  serial : List UInt8
  deriving DecidableEq, Repr

/-- The event packet at an address. -/
def EventView.at (m : Memory) (p : Address) : EventView where
  kind := Packet.kind m p
  code := Packet.eventCode m p
  length := Packet.eventLength m p
  serial := m.read (Packet.serial p) Format.event.size

end InterCore
